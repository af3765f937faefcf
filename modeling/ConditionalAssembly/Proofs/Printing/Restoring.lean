import ConditionalAssembly.Expr.Printer
import ConditionalAssembly.Proofs.Evaluation.Erasure
import ConditionalAssembly.Proofs.Phrase.Precedence
import ConditionalAssembly.Proofs.Printing.Legible

/-!
# Fragments that restore a tree

A fragment restores a tree when it is resolved to a number without a
diagnostic and what it becomes is printed and evaluated like the tree.  A
printed tree has a list for each of its operators.  Such a list is a phrase
with a single operator, so it restores the node when its operands restore
those of the node.
-/

namespace ConditionalAssembly

open Evaluation

/-! ## Operators as they are printed -/

/-- The words that a binary operator is printed as. -/
def BinaryOperator.words : BinaryOperator → List String
  | .andNot => ["AND", OperatorTable.notWord]
  | .orNot => ["OR", OperatorTable.notWord]
  | .xorNot => ["XOR", OperatorTable.notWord]
  | operator => [operator.text]

theorem UnaryOperator.exists_entry {operator : UnaryOperator}
    (numeric : operator.isNumeric) :
    ∃ entry, OperatorTable.arithmetic.unary? operator.text = some entry ∧
      entry.operator = operator := by
  cases operator with
  | plus | minus | not => exact ⟨_, rfl, rfl⟩
  | _ => cases numeric

/-- A binary operator on numbers is found by its text, or else by a word and the `NOT` that joins
with it. -/
theorem BinaryOperator.exists_entry {operator : BinaryOperator}
    (numeric : operator.isNumeric) :
    (∃ entry, operator.words = [operator.text] ∧
        OperatorTable.arithmetic.binary? operator.text = some entry ∧ entry.operator = operator) ∨
      ∃ word entry combined, operator.words = [word, OperatorTable.notWord] ∧
        OperatorTable.arithmetic.binary? word = some entry ∧ entry.notForm ∧
        OperatorTable.arithmetic.binary? (word ++ " " ++ OperatorTable.notWord) = some combined ∧
        combined.operator = operator := by
  cases operator with
  | andNot => exact .inr ⟨"AND", _, _, rfl, rfl, rfl, rfl, rfl⟩
  | orNot => exact .inr ⟨"OR", _, _, rfl, rfl, rfl, rfl, rfl⟩
  | xorNot => exact .inr ⟨"XOR", _, _, rfl, rfl, rfl, rfl, rfl⟩
  | add | sub | mul | div | and | or | xor | sla | sll | sra | srl =>
      exact .inl ⟨_, rfl, rfl, rfl⟩
  | _ => cases numeric

/-- The words of an operator on numbers are read as the operator in front of an operand. -/
theorem BinaryOperator.exists_operatorAt? {operator : BinaryOperator}
    (numeric : operator.isNumeric) {words : List Expr}
    (spelled : words.map Expr.word? = operator.words.map some) {operand : Expr}
    (notUnary : operand.word?.bind OperatorTable.arithmetic.unary? = none) :
    ∃ entry, entry.operator = operator ∧ .binary entry ∈ OperatorTable.arithmetic.entries ∧
      Phrase.operatorAt? .arithmetic Expr.word? (words ++ [operand]) =
        some ⟨entry, words, [operand]⟩ := by
  obtain ⟨entry, printed, found, rfl⟩ |
      ⟨word, entry, combined, printed, found, joins, foundJoined, rfl⟩ :=
    operator.exists_entry numeric
  · rw [printed] at spelled
    obtain ⟨item, rfl, isWord⟩ := List.map_eq_singleton_iff.mp spelled
    have alone : operand.word? ≠ some OperatorTable.notWord := by
      intro isNot
      rw [isNot] at notUnary
      cases notUnary
    refine ⟨entry, rfl, (OperatorTable.name_of_binary? found).2, ?_⟩
    exact Phrase.operatorAt?_of_binary isWord found fun _ isNot => absurd isNot alone
  · rw [printed] at spelled
    obtain ⟨item, next, rfl, isWord, isNot⟩ : ∃ item next, words = [item, next] ∧
        item.word? = some word ∧ next.word? = some OperatorTable.notWord := by
      obtain ⟨item, rest, rfl, isWord, others⟩ := List.map_eq_cons_iff.mp spelled
      obtain ⟨next, rfl, isNot⟩ := List.map_eq_singleton_iff.mp others
      exact ⟨item, next, rfl, isWord, isNot⟩
    refine ⟨combined, rfl, (OperatorTable.name_of_binary? foundJoined).2, ?_⟩
    exact Phrase.operatorAt?_of_joined isWord found joins isNot foundJoined [operand]

/-! ## Restoring -/

namespace Expr

/-- A legible tree is a number. -/
theorem Legible.domain? {tree : Expr} (legible : tree.Legible) :
    tree.domain? = some .arithmetic := by
  cases legible <;> rfl

/-- The fragment may stand as an operand of an operator on numbers, and what it is resolved to there
is printed and evaluated like the tree. -/
structure Restores (fragment tree : Expr) : Prop where
  notUnary : fragment.word?.bind OperatorTable.arithmetic.unary? = none
  untagged : fragment.domain? = none
  quiet : (fragment.resolve .arithmetic).diagnostics = []
  render : (fragment.resolve .arithmetic).value.render = tree.render
  alike (store : Store) :
    ((fragment.resolve .arithmetic).value.evaluate store).Alike (tree.evaluate store)

namespace Restores

theorem constant (value : Int32) (range place : Range) :
    (Expr.constant value range none).Restores (.constant value place (some .arithmetic)) where
  notUnary := rfl
  untagged := rfl
  quiet := rfl
  render := rfl
  alike := alike_evaluate_of_erase_eq rfl

theorem symbol {name : String} (notUnary : OperatorTable.arithmetic.unary? name = none)
    (range place : Range) :
    (Expr.symbol name range none).Restores (.symbol name place (some .arithmetic)) where
  notUnary := notUnary
  untagged := rfl
  quiet := rfl
  render := rfl
  alike := alike_evaluate_of_erase_eq rfl

theorem symbolAttribute (kind : Attribute) (name : String) (range place : Range) :
    (Expr.symbolAttribute kind name range none).Restores
      (.symbolAttribute kind name place (some .arithmetic)) where
  notUnary := rfl
  untagged := rfl
  quiet := rfl
  render := rfl
  alike := alike_evaluate_of_erase_eq rfl

/-- What restores the root of a resolved list restores the list. -/
theorem resolved {fragment root : Expr} (restores : fragment.Restores root)
    (domain : root.domain? = some .arithmetic) (place : Range) :
    fragment.Restores (.resolved root false place .arithmetic) where
  notUnary := restores.notUnary
  untagged := restores.untagged
  quiet := restores.quiet
  render := restores.render
  alike store := by
    rw [evaluate_resolved_of_domain store (by rw [domain]; rfl)]
    exact restores.alike store

/-- A list restores what the tree of its phrase is printed and evaluated like. -/
theorem of_phrase {fragments : List Expr} {phrase : Phrase Expr} {tree : Expr}
    (formed : Phrase.ofItems .arithmetic Expr.word? fragments = .ok phrase)
    (quiet : reportedBy (phrase.built ++ phrase.pending .arithmetic) = [])
    (domain : (phrase.tree .arithmetic).domain? = some .arithmetic)
    (render : (phrase.tree .arithmetic).render = tree.render)
    (alike : ∀ store, ((phrase.tree .arithmetic).evaluate store).Alike (tree.evaluate store))
    (range : Range) : (Expr.unresolved fragments range).Restores tree := by
  have whole : (Expr.unresolved fragments range).resolve .arithmetic =
      ⟨.resolved (phrase.tree .arithmetic) false range .arithmetic, []⟩ := by
    rw [resolve, OperatorTable.ofDomain, resolveWith_of_phrase formed]
    exact congrArg (Reported.mk _) quiet
  refine ⟨rfl, rfl, by rw [whole], by rw [whole]; exact render, fun store => ?_⟩
  rw [whole, evaluate_resolved_of_domain store (by rw [domain]; rfl)]
  exact alike store

section

variable {fragment tree : Expr} (restores : fragment.Restores tree)

include restores

theorem domain?_resolve : (fragment.resolve .arithmetic).value.domain? = some .arithmetic := by
  rw [Expr.domain?_resolve, restores.untagged]
  rfl

/-- A list of one fragment restores what the fragment does. -/
theorem list (range : Range) : (Expr.unresolved [fragment] range).Restores tree := by
  have formed : Phrase.ofItems .arithmetic Expr.word? [fragment] = .ok (.operand fragment) :=
    Phrase.ofItems_singleton (OperatorTable.bounded_ofDomain .arithmetic) restores.notUnary
  refine of_phrase formed ?_ restores.domain?_resolve restores.render restores.alike range
  simp [Phrase.built, Phrase.pending, reportedBy, restores.quiet]

/-- The word of a unary operator and what restores its operand restore the node. -/
theorem unary {operator : UnaryOperator} (numeric : operator.isNumeric) {word : Expr}
    (spelled : word.word? = some operator.text) (range place : Range) :
    (Expr.unresolved [word, fragment] range).Restores
      (.unary operator tree place .arithmetic .arithmetic) := by
  obtain ⟨entry, found, rfl⟩ := operator.exists_entry numeric
  obtain ⟨_, takes, gives⟩ :=
    OperatorTable.numeric_unary (OperatorTable.name_of_unary? found).2
  have domain : Phrase.unaryDomain entry = .arithmetic := by
    rw [Phrase.unaryDomain, takes, Operands.domain]
  have isUnary : word.word?.bind OperatorTable.arithmetic.unary? = some entry := by
    rw [spelled]
    exact found
  have formed := Phrase.ofItems_unary (OperatorTable.bounded_ofDomain .arithmetic) isUnary
    restores.notUnary
  refine of_phrase formed ?_ ?_ ?_ (fun store => ?_) range
  · simp [Phrase.built, Phrase.pending, domain, reportedBy, restores.quiet]
  · rw [Phrase.tree, gives]
    rfl
  · simp only [Phrase.tree, domain, Expr.render, restores.render]
  · rw [Phrase.tree, domain, gives]
    exact alike_evaluate_unary _ _ _ _ (restores.alike store) _

end

/-- The words of a binary operator between what restores its operands restore the node. -/
theorem binary {left right leftTree rightTree : Expr} (leftRestores : left.Restores leftTree)
    (rightRestores : right.Restores rightTree) {operator : BinaryOperator}
    (numeric : operator.isNumeric) {words : List Expr}
    (spelled : words.map Expr.word? = operator.words.map some) (range place : Range) :
    (Expr.unresolved (left :: (words ++ [right])) range).Restores
      (.binary operator leftTree rightTree place .arithmetic .arithmetic) := by
  obtain ⟨entry, rfl, listed, found⟩ :=
    operator.exists_operatorAt? numeric spelled rightRestores.notUnary
  obtain ⟨_, takes, gives⟩ := OperatorTable.numeric_binary listed
    (BinaryOperator.isSearch_of_isNumeric numeric)
  have domain (first second : Phrase Expr) :
      Phrase.binaryDomain entry first second = .arithmetic := by
    rw [Phrase.binaryDomain, takes, Operands.domain]
  have formed := Phrase.ofItems_binary (OperatorTable.bounded_ofDomain .arithmetic)
    leftRestores.notUnary found rightRestores.notUnary
  refine of_phrase formed ?_ ?_ ?_ (fun store => ?_) range
  · simp [Phrase.built, Phrase.pending, domain, reportedBy, leftRestores.quiet,
      rightRestores.quiet]
  · rw [Phrase.tree, gives]
    rfl
  · simp only [Phrase.tree, domain, Expr.render, leftRestores.render, rightRestores.render]
  · rw [Phrase.tree, domain, gives]
    exact alike_evaluate_binary _ _ _ _ (leftRestores.alike store) (rightRestores.alike store) _

end Restores

/-- Subscripts that are restored one by one. -/
structure RestoreEach (fragments trees : List Expr) : Prop where
  quiet : (resolveNumbers fragments).diagnostics = []
  render : renderEach (resolveNumbers fragments).value = renderEach trees
  alike (store : Store) :
    (evaluateWords store (resolveNumbers fragments).value).Alike (evaluateWords store trees)

theorem restoreEach_nil : RestoreEach [] [] :=
  ⟨rfl, rfl, fun _ => .refl _⟩

theorem Restores.restoreEach {fragment tree : Expr} (restores : fragment.Restores tree)
    {fragments trees : List Expr} (others : RestoreEach fragments trees) :
    RestoreEach (fragment :: fragments) (tree :: trees) where
  quiet := by
    have first := restores.quiet
    rw [resolveNumbers]
    simp only [Reported.diagnostics_bind, others.quiet]
    simpa [Expr.resolve, OperatorTable.ofDomain] using first
  render := by
    rw [resolveNumbers_eq_map, List.map_cons, renderEach, renderEach, restores.render,
      ← resolveNumbers_eq_map, others.render]
  alike store := by
    rw [resolveNumbers_eq_map, List.map_cons, ← resolveNumbers_eq_map, evaluateWords,
      evaluateWords]
    apply (alike_number (restores.alike store) _ _).bind
    intro word
    exact (others.alike store).bind fun _ => .refl _

theorem render_variableTerm (name : String) (subscript : List Expr) (range : Range)
    (domain : Option Domain) :
    (Expr.variableTerm ⟨.basic name, subscript, range⟩ domain).render =
      "&" ++ name ++ if renderEach subscript = [] then ""
        else "(" ++ Text.join "," (renderEach subscript) ++ ")" := by
  cases subscript <;> simp [Expr.render, VariableSymbol.render, renderEach]

/-- A variable restores another whose subscripts it restores. -/
theorem RestoreEach.variableTerm {fragments trees : List Expr} (each : RestoreEach fragments trees)
    (name : String) (range place : Range) :
    (Expr.variableTerm ⟨.basic name, fragments, range⟩ none).Restores
      (.variableTerm ⟨.basic name, trees, place⟩ (some .arithmetic)) := by
  have value : ((Expr.variableTerm ⟨.basic name, fragments, range⟩ none).resolve
      .arithmetic).value =
      .variableTerm ⟨.basic name, (resolveNumbers fragments).value, range⟩ (some .arithmetic) :=
    rfl
  refine ⟨rfl, rfl, ?_, ?_, fun store => ?_⟩
  · simp [resolve, resolveWith, VariableSymbol.resolve, each.quiet]
  · rw [value, render_variableTerm, render_variableTerm, each.render]
  · rw [value, evaluate, evaluate]
    apply alike_settle
    rw [VariableSymbol.evaluate, VariableSymbol.evaluate]
    apply (Reported.Alike.refl _).bind
    intro text
    exact (each.alike store).bind fun _ => .refl _

end Expr

end ConditionalAssembly
