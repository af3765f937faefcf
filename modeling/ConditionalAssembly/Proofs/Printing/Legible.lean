import ConditionalAssembly.Proofs.Phrase.Spelling
import ConditionalAssembly.Proofs.Printing.Elementary
import ConditionalAssembly.Proofs.Resolution.Tree

/-!
# Legible trees

A tree is legible when every operand and every operator in it belongs to the
arithmetic domain and can be spelled by tokens.  Apart from searches, which
take characters, an elementary expression that is resolved without a
diagnostic becomes such a tree.
-/

namespace ConditionalAssembly

/-! ## Operators on numbers -/

/-- The operator takes a number and gives one. -/
def UnaryOperator.isNumeric : UnaryOperator → Bool
  | .plus | .minus | .not => true
  | _ => false

/-- The operator takes numbers and gives one. -/
def BinaryOperator.isNumeric : BinaryOperator → Bool
  | .add | .sub | .mul | .div | .and | .or | .xor | .andNot | .orNot | .xorNot | .sla | .sll
  | .sra | .srl => true
  | _ => false

/-- The operator looks for one text in another. -/
def BinaryOperator.isSearch : BinaryOperator → Bool
  | .index | .find => true
  | _ => false

theorem BinaryOperator.isSearch_of_isNumeric {operator : BinaryOperator}
    (numeric : operator.isNumeric) : operator.isSearch = false := by
  cases operator <;> first | rfl | cases numeric

/-- A line for an operator on numbers or for a search. -/
def TableEntry.isNumericOrSearch : TableEntry → Bool
  | .unary entry =>
      entry.operator.isNumeric && entry.operands = .fixed .arithmetic && entry.result = .arithmetic
  | .binary entry =>
      entry.operator.isSearch || entry.operator.isNumeric &&
        entry.operands = .fixed .arithmetic && entry.result = .arithmetic

namespace OperatorTable

theorem isNumericOrSearch_of_mem {line : TableEntry} (listed : line ∈ arithmetic.entries) :
    line.isNumericOrSearch = true := by
  have all : ∀ line ∈ arithmetic.entries, line.isNumericOrSearch = true := by decide
  exact all line listed

/-- The unary operators of arithmetic expressions are those on numbers. -/
theorem numeric_unary {entry : OperatorEntry UnaryOperator}
    (listed : .unary entry ∈ arithmetic.entries) :
    entry.operator.isNumeric ∧ entry.operands = .fixed .arithmetic ∧
      entry.result = .arithmetic := by
  have line := isNumericOrSearch_of_mem listed
  simpa [TableEntry.isNumericOrSearch, and_assoc] using line

/-- The binary operators of arithmetic expressions but for searches are those on numbers. -/
theorem numeric_binary {entry : OperatorEntry BinaryOperator}
    (listed : .binary entry ∈ arithmetic.entries) (noSearch : entry.operator.isSearch = false) :
    entry.operator.isNumeric ∧ entry.operands = .fixed .arithmetic ∧
      entry.result = .arithmetic := by
  have line := isNumericOrSearch_of_mem listed
  simpa [TableEntry.isNumericOrSearch, noSearch, and_assoc] using line

end OperatorTable

/-! ## Trees -/

namespace Expr

/-- The node looks for one text in another. -/
def isSearch : Expr → Bool
  | .binary operator _ _ _ _ _ => operator.isSearch
  | _ => false

/-- A tree of numbers whose operands and operators tokens can spell. -/
inductive Legible : Expr → Prop where
  | constant {value : Nat} {range : Range} :
      value < 2147483648 → Legible (.constant (.ofInt value) range (some .arithmetic))
  | symbol {name : String} {range : Range} :
      Token.IsWord name → OperatorTable.arithmetic.unary? name = none →
      Legible (.symbol name range (some .arithmetic))
  | symbolAttribute {kind : Attribute} {name : String} {range : Range} :
      Text.IsUpperName name → Legible (.symbolAttribute kind name range (some .arithmetic))
  | variableTerm {name : String} {subscript : List Expr} {range : Range} :
      Text.IsUpperName name → (∀ index ∈ subscript, Legible index) →
      Legible (.variableTerm ⟨.basic name, subscript, range⟩ (some .arithmetic))
  | resolved {root : Expr} {range : Range} :
      Legible root → Legible (.resolved root false range .arithmetic)
  | unary {operator : UnaryOperator} {operand : Expr} {range : Range} :
      operator.isNumeric → Legible operand →
      Legible (.unary operator operand range .arithmetic .arithmetic)
  | binary {operator : BinaryOperator} {left right : Expr} {range : Range} :
      operator.isNumeric → Legible left → Legible right →
      Legible (.binary operator left right range .arithmetic .arithmetic)

end Expr

/-- None of the nodes looks for one text in another. -/
def NoSearch (nodes : List Expr) : Prop :=
  ∀ node ∈ nodes, node.isSearch = false

/-- The expression becomes a legible tree unless something is reported or searched. -/
def Expr.ResolvesLegibly (expr : Expr) : Prop :=
  (expr.resolve .arithmetic).diagnostics = [] →
    NoSearch ((expr.resolve .arithmetic).value.nodes true) →
    (expr.resolve .arithmetic).value.Legible

/-- The tree of a phrase is legible when its operands are resolved legibly. -/
theorem Phrase.legible_tree {phrase : Phrase Expr}
    (spelled : phrase.Spelled .arithmetic Expr.word?)
    (operands : ∀ fragment ∈ phrase.operands, fragment.ResolvesLegibly)
    (quiet : reportedBy (phrase.built ++ phrase.pending .arithmetic) = [])
    (noSearch : NoSearch ((phrase.tree .arithmetic).nodes true)) :
    (phrase.tree .arithmetic).Legible := by
  induction phrase with
  | operand fragment =>
      have alone : (fragment.resolve .arithmetic).diagnostics = [] := by
        simpa [built, pending, reportedBy] using quiet
      exact operands fragment (List.mem_singleton_self fragment) alone noSearch
  | unary entry word inner ih =>
      obtain ⟨numeric, takes, gives⟩ := OperatorTable.numeric_unary spelled.1
      have domain : unaryDomain entry = .arithmetic := by rw [unaryDomain, takes, Operands.domain]
      rw [built, pending, List.append_nil, domain] at quiet
      rw [tree, domain, gives] at noSearch ⊢
      exact .unary numeric (ih spelled.2.2 operands quiet (List.forall_mem_cons.mp noSearch).2)
  | binary entry words left right ihLeft ihRight =>
      have root : entry.operator.isSearch = false := noSearch _ (Expr.mem_nodes_self _ _)
      obtain ⟨numeric, takes, gives⟩ := OperatorTable.numeric_binary spelled.1.1 root
      have domain : binaryDomain entry left right = .arithmetic := by
        rw [binaryDomain, takes, Operands.domain]
      rw [tree, domain, gives] at noSearch ⊢
      obtain ⟨leftNodes, rightNodes⟩ :=
        List.forall_mem_append.mp (List.forall_mem_cons.mp noSearch).2
      obtain ⟨leftOperands, rightOperands⟩ := List.forall_mem_append.mp operands
      simp only [built, pending, domain, reportedBy_append, List.append_nil,
        List.append_eq_nil_iff] at quiet ihLeft ihRight
      obtain ⟨⟨⟨leftBuilt, rightBuilt⟩, leftPending⟩, rightPending⟩ := quiet
      exact .binary numeric
        (ihLeft spelled.2.1 leftOperands ⟨leftBuilt, leftPending⟩ leftNodes)
        (ihRight spelled.2.2 rightOperands ⟨rightBuilt, rightPending⟩ rightNodes)

namespace Expr

/-- An elementary expression that is no unary operator is resolved legibly. -/
theorem Elementary.legible {expr : Expr} (elementary : expr.Elementary)
    (operand : expr.word?.bind OperatorTable.arithmetic.unary? = none) :
    expr.ResolvesLegibly := by
  induction elementary with
  | constant bounded => exact fun _ _ => .constant bounded
  | symbol isWord => exact fun _ _ => .symbol isWord operand
  | symbolAttribute upper => exact fun _ _ => .symbolAttribute upper
  | @variableTerm name subscript range upper lists _ ih =>
      intro quiet noSearch
      have nodes := (List.forall_mem_cons.mp noSearch).2
      have numbers := diagnostics_resolveNumbers subscript
      rw [show (resolveNumbers subscript).diagnostics = [] by
        simpa [Expr.resolve, resolveWith, VariableSymbol.resolve] using quiet] at numbers
      refine .variableTerm upper fun index isIndex => ?_
      rw [resolveNumbers_eq_map] at isIndex
      obtain ⟨number, isNumber, rfl⟩ := List.mem_map.mp isIndex
      apply ih number isNumber
      · cases number with
        | unresolved fragments range => rfl
        | _ => cases lists _ isNumber
      · exact List.flatMap_eq_nil_iff.mp numbers.symm number isNumber
      · intro node isNode
        refine nodes node (mem_nodesOfEach.mpr ⟨_, ?_, isNode⟩)
        rw [resolveNumbers_eq_map]
        exact List.mem_map_of_mem isNumber
  | @unresolved fragments range _ ih =>
      intro quiet noSearch
      obtain ⟨phrase, formed, whole, reports⟩ := exists_phrase_of_quiet quiet
      rw [whole] at noSearch ⊢
      have bounded := OperatorTable.bounded_ofDomain .arithmetic
      refine .resolved (Phrase.legible_tree (Phrase.spelled_of_ofItems formed) ?_ reports
        (List.forall_mem_cons.mp noSearch).2)
      intro fragment isOperand
      have listed := Phrase.mem_items_of_mem_operands isOperand
      rw [Phrase.items_of_ofItems formed] at listed
      exact ih fragment listed (Phrase.not_unary_of_mem_operands bounded formed isOperand)

end Expr

end ConditionalAssembly
