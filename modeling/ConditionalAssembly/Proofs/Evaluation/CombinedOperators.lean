import ConditionalAssembly.Context
import ConditionalAssembly.Proofs.Evaluation.Alike
import ConditionalAssembly.Proofs.Evaluation.Operators

/-!
# Operators combined with NOT

The operators `AND NOT`, `OR NOT` and `XOR NOT` apply `AND`, `OR` and `XOR` to
their left operand and the complement of the right one.  So a node of such an
operator may be separated into two, of the operator alone and of `NOT` for its
right operand, as long as the operands are numbers or truth values.  In the
trees of the resolver they always are, wherever the node stands: in operands, in
subscripts, in the names of variables and in the parts of strings.
-/

namespace ConditionalAssembly

open Evaluation

/-! ## Complements -/

/-- The operator that a combined one applies to the complement of its right operand. -/
def BinaryOperator.withoutNot? : BinaryOperator → Option BinaryOperator
  | .andNot => some .and
  | .orNot => some .or
  | .xorNot => some .xor
  | _ => none

/-- A number with each of its bits turned over, or the other truth value. -/
def Value.complement : Value → Value
  | .arithmetic word => .arithmetic (~~~ word)
  | .binary truth => .binary (!truth)
  | .character text => .character text

/-- A node of `NOT` makes the complement of an operand that is no text. -/
theorem Evaluation.settle_not {value : Value} (noText : value.domain ≠ .character) (range : Range) :
    settle (some value.domain) range (pure (UnaryOperator.not.apply value)) =
      pure value.complement := by
  cases value with
  | arithmetic word | binary truth => rfl
  | character text => exact absurd rfl noText

/-- A combined operator is the operator alone, applied to the complement. -/
theorem BinaryOperator.apply_complement {combined single : BinaryOperator}
    (splits : combined.withoutNot? = some single) (left right : Value) :
    single.apply left right.complement = combined.apply left right := by
  cases combined <;> cases splits <;> cases left <;> cases right <;> rfl

/-! ## One node -/

section

variable {store : Store} {operandDomain : Domain}

/-- A `NOT` for numbers or truth values reports nothing of its own. -/
theorem Expr.evaluateAs_not (noText : operandDomain ≠ .character) (operand : Expr) (range : Range) :
    (Expr.unary .not operand range operandDomain operandDomain).evaluateAs store operandDomain =
      Value.complement <$> operand.evaluateAs store operandDomain := by
  have operandFits := operand.domain_evaluateAs store operandDomain
  have complemented := settle_not (operandFits.symm ▸ noText) range
  rw [operandFits] at complemented
  have own : (Expr.unary .not operand range operandDomain operandDomain).domain?.getD .arithmetic =
      operandDomain := rfl
  rw [Expr.evaluateAs_of_domain store own, Expr.evaluate]
  calc
    settle (some operandDomain) range _ = operand.evaluateAs store operandDomain >>= fun value =>
        settle (some operandDomain) range (pure (UnaryOperator.not.apply value)) := by
      apply Reported.ext <;> simp [settle, Expr.evaluateAs]
    _ = Value.complement <$> operand.evaluateAs store operandDomain := by
      rw [map_eq_pure_bind]
      exact Reported.bind_congr_value complemented

/-- Of a combined operator and of the two that it is made of, the nodes evaluate alike. -/
theorem Expr.evaluate_combined (noText : operandDomain ≠ .character)
    {combined single : BinaryOperator} (splits : combined.withoutNot? = some single)
    (left right : Expr) (range place : Range) (domain : Domain) :
    (Expr.binary single left (.unary .not right place operandDomain operandDomain) range domain
      operandDomain).evaluate store =
      (Expr.binary combined left right range domain operandDomain).evaluate store := by
  have unfolded (operator : BinaryOperator) (other : Expr) :
      (Expr.binary operator left other range domain operandDomain).evaluate store =
        settle (some domain) range do
          let leftValue ← left.evaluateAs store operandDomain
          let rightValue ← other.evaluateAs store operandDomain
          return operator.apply leftValue rightValue := by
    rw [Expr.evaluate]
    simp only [Expr.evaluateAs, bind_assoc]
  rw [unfolded, unfolded, Expr.evaluateAs_not noText]
  simp only [bind_map_left, BinaryOperator.apply_complement splits]

end

/-! ## Separating nodes -/

mutual

/-- Some of the combined operators inside an expression are separated. -/
inductive Expr.Separates : Expr → Expr → Prop where
  | refl (expr : Expr) : Expr.Separates expr expr
  | variableTerm {reference other : VariableSymbol} {domain : Option Domain} :
      VariableSymbol.Separates reference other →
      Expr.Separates (.variableTerm reference domain) (.variableTerm other domain)
  | variableAttribute {kind : Attribute} {reference other : VariableSymbol} {range : Range}
      {domain : Option Domain} :
      VariableSymbol.Separates reference other →
      Expr.Separates (.variableAttribute kind reference range domain)
        (.variableAttribute kind other range domain)
  | string {duplication factor : Option Expr} {chain other : List ChainItem}
      {selection part : Selection} {range : Range} {domain : Option Domain} :
      OptionSeparates duplication factor → ChainSeparates chain other →
      Selection.Separates selection part →
      Expr.Separates (.string ⟨duplication, chain, selection⟩ range domain)
        (.string ⟨factor, other, part⟩ range domain)
  | unresolved {fragments others : List Expr} {range : Range} :
      EachSeparates fragments others →
      Expr.Separates (.unresolved fragments range) (.unresolved others range)
  | resolved {root other : Expr} {recovered : Bool} {range : Range} {domain : Domain} :
      Expr.Separates root other →
      Expr.Separates (.resolved root recovered range domain) (.resolved other recovered range domain)
  | unary {operator : UnaryOperator} {operand other : Expr} {range : Range}
      {domain operandDomain : Domain} :
      Expr.Separates operand other →
      Expr.Separates (.unary operator operand range domain operandDomain)
        (.unary operator other range domain operandDomain)
  | binary {operator : BinaryOperator} {left right first second : Expr} {range : Range}
      {domain operandDomain : Domain} :
      Expr.Separates left first → Expr.Separates right second →
      Expr.Separates (.binary operator left right range domain operandDomain)
        (.binary operator first second range domain operandDomain)
  | combined {combined single : BinaryOperator} {left right first second : Expr}
      {range place : Range} {domain operandDomain : Domain} :
      combined.withoutNot? = some single →
      Expr.Separates left first → Expr.Separates right second →
      Expr.Separates (.binary combined left right range domain operandDomain)
        (.binary single first (.unary .not second place operandDomain operandDomain) range domain
          operandDomain)

/-- Some of the combined operators inside a reference to a variable are separated. -/
inductive VariableSymbol.Separates : VariableSymbol → VariableSymbol → Prop where
  | basic {name : String} {subscript others : List Expr} {range : Range} :
      EachSeparates subscript others →
      VariableSymbol.Separates ⟨.basic name, subscript, range⟩ ⟨.basic name, others, range⟩
  | created {chain other : List ChainItem} {subscript others : List Expr} {range : Range} :
      ChainSeparates chain other → EachSeparates subscript others →
      VariableSymbol.Separates ⟨.created chain, subscript, range⟩ ⟨.created other, others, range⟩

/-- Some of the combined operators inside a selection are separated. -/
inductive Selection.Separates : Selection → Selection → Prop where
  | bounds {start count first second : Option Expr} {toEnd : Bool} :
      OptionSeparates start first → OptionSeparates count second →
      Selection.Separates ⟨start, count, toEnd⟩ ⟨first, second, toEnd⟩

/-- Some of the combined operators inside a piece of text are separated. -/
inductive ChainItem.Separates : ChainItem → ChainItem → Prop where
  | refl (item : ChainItem) : ChainItem.Separates item item
  | variableItem {reference other : VariableSymbol} :
      VariableSymbol.Separates reference other →
      ChainItem.Separates (.variableItem reference) (.variableItem other)
  | sublist {members others : List (List ChainItem)} :
      MembersSeparate members others → ChainItem.Separates (.sublist members) (.sublist others)

/-- Some of the combined operators inside an expression that may be missing are separated. -/
inductive OptionSeparates : Option Expr → Option Expr → Prop where
  | none : OptionSeparates none none
  | some {expr other : Expr} : Expr.Separates expr other → OptionSeparates (some expr) (some other)

/-- Some of the combined operators inside a chain are separated. -/
inductive ChainSeparates : List ChainItem → List ChainItem → Prop where
  | nil : ChainSeparates [] []
  | cons {item other : ChainItem} {rest others : List ChainItem} :
      ChainItem.Separates item other → ChainSeparates rest others →
      ChainSeparates (item :: rest) (other :: others)

/-- Some of the combined operators inside the members of a sublist are separated. -/
inductive MembersSeparate : List (List ChainItem) → List (List ChainItem) → Prop where
  | nil : MembersSeparate [] []
  | cons {chain other : List ChainItem} {rest others : List (List ChainItem)} :
      ChainSeparates chain other → MembersSeparate rest others →
      MembersSeparate (chain :: rest) (other :: others)

/-- Some of the combined operators inside some expressions are separated. -/
inductive EachSeparates : List Expr → List Expr → Prop where
  | nil : EachSeparates [] []
  | cons {expr other : Expr} {rest others : List Expr} :
      Expr.Separates expr other → EachSeparates rest others →
      EachSeparates (expr :: rest) (other :: others)

end

/-- A combined operator takes no texts. -/
def Expr.IsSeparable : Expr → Prop
  | .binary operator _ _ _ _ operandDomain =>
      operator.withoutNot?.isSome → operandDomain ≠ .character
  | _ => True

/-- None of the combined operators among some nodes takes texts. -/
def AllSeparable (nodes : List Expr) : Prop :=
  ∀ node ∈ nodes, node.IsSeparable

theorem allSeparable_cons {node : Expr} {rest : List Expr} :
    AllSeparable (node :: rest) ↔ node.IsSeparable ∧ AllSeparable rest :=
  List.forall_mem_cons

theorem allSeparable_append {first second : List Expr} :
    AllSeparable (first ++ second) ↔ AllSeparable first ∧ AllSeparable second :=
  List.forall_mem_append

/-! ## Evaluating what was separated -/

section

variable {store : Store}

mutual

/-- Separating operators leaves the value of an expression as it is, and what is reported. -/
theorem Expr.Separates.evaluate_eq {expr other : Expr} :
    expr.Separates other → AllSeparable (expr.nodes true) →
      other.range = expr.range ∧ other.evaluate store = expr.evaluate store
  | .refl _, _ => ⟨rfl, rfl⟩
  | .variableTerm reference, separable => by
      obtain ⟨range, value, _⟩ := reference.evaluate_eq (allSeparable_cons.mp separable).2
      exact ⟨range, by rw [Expr.evaluate, Expr.evaluate, range, value]⟩
  | .variableAttribute reference, separable => by
      obtain ⟨_, _, ofKind⟩ := reference.evaluate_eq (allSeparable_cons.mp separable).2
      exact ⟨rfl, by rw [Expr.evaluate, Expr.evaluate, ofKind]⟩
  | .string duplication chain selection, separable => by
      obtain ⟨front, inSelection⟩ := allSeparable_append.mp (allSeparable_cons.mp separable).2
      obtain ⟨inFactor, inChain⟩ := allSeparable_append.mp front
      have text := chain.evaluate_eq inChain
      have part := selection.evaluate_eq inSelection
      refine ⟨rfl, ?_⟩
      rw [Expr.evaluate, Expr.evaluate]
      cases duplication with
      | none => simp only [StringTerm.evaluate, text, part]
      | some factor =>
          obtain ⟨range, value⟩ := factor.evaluate_eq inFactor
          simp only [StringTerm.evaluate, text, part, range, value]
  | .unresolved _, _ => ⟨rfl, rfl⟩
  | .resolved root, separable => by
      obtain ⟨_, value⟩ := root.evaluate_eq (allSeparable_cons.mp separable).2
      exact ⟨rfl, by rw [Expr.evaluate, Expr.evaluate, value]⟩
  | .unary operand, separable => by
      obtain ⟨range, value⟩ := operand.evaluate_eq (allSeparable_cons.mp separable).2
      exact ⟨rfl, by rw [Expr.evaluate, Expr.evaluate, range, value]⟩
  | .binary left right, separable => by
      obtain ⟨inLeft, inRight⟩ := allSeparable_append.mp (allSeparable_cons.mp separable).2
      obtain ⟨leftRange, leftValue⟩ := left.evaluate_eq inLeft
      obtain ⟨rightRange, rightValue⟩ := right.evaluate_eq inRight
      refine ⟨rfl, ?_⟩
      rw [Expr.evaluate, Expr.evaluate, leftRange, leftValue, rightRange, rightValue]
  | .combined splits left right, separable => by
      obtain ⟨noText, operands⟩ := allSeparable_cons.mp separable
      obtain ⟨inLeft, inRight⟩ := allSeparable_append.mp operands
      obtain ⟨leftRange, leftValue⟩ := left.evaluate_eq inLeft
      obtain ⟨rightRange, rightValue⟩ := right.evaluate_eq inRight
      refine ⟨rfl, ?_⟩
      rw [Expr.evaluate_combined (noText (Option.isSome_of_eq_some splits)) splits, Expr.evaluate,
        Expr.evaluate, leftRange, leftValue, rightRange, rightValue]

theorem VariableSymbol.Separates.evaluate_eq {reference other : VariableSymbol} :
    reference.Separates other → AllSeparable (reference.nodes true) →
      other.range = reference.range ∧ other.evaluate store = reference.evaluate store ∧
        ∀ kind, other.evaluateAttribute store kind = reference.evaluateAttribute store kind
  | .basic subscript, separable => by
      have words := subscript.evaluate_eq (allSeparable_append.mp separable).2
      refine ⟨rfl, ?_, fun kind => ?_⟩
      · simp only [VariableSymbol.evaluate, words]
      · simp only [VariableSymbol.evaluateAttribute, words]
  | .created chain subscript, separable => by
      have text := chain.evaluate_eq (allSeparable_append.mp separable).1
      have words := subscript.evaluate_eq (allSeparable_append.mp separable).2
      refine ⟨rfl, ?_, fun kind => ?_⟩
      · simp only [VariableSymbol.evaluate, VariableName.evaluate, text, words]
      · simp only [VariableSymbol.evaluateAttribute, VariableName.evaluate, text, words]

theorem Selection.Separates.evaluate_eq {selection other : Selection} :
    selection.Separates other → AllSeparable (selection.nodes true) →
      ∀ text, other.evaluate store text = selection.evaluate store text
  | .bounds start count, separable, text => by
      obtain ⟨inStart, inCount⟩ := allSeparable_append.mp separable
      cases start with
      | none => rfl
      | some start =>
          obtain ⟨startRange, startValue⟩ := start.evaluate_eq inStart
          cases count with
          | none => simp only [Selection.evaluate, startRange, startValue]
          | some count =>
              obtain ⟨countRange, countValue⟩ := count.evaluate_eq inCount
              simp only [Selection.evaluate, startRange, startValue, countRange, countValue]

theorem ChainItem.Separates.evaluate_eq {item other : ChainItem} :
    item.Separates other → AllSeparable (item.nodes true) →
      other.evaluate store = item.evaluate store
  | .refl _, _ => rfl
  | .variableItem reference, separable => by
      obtain ⟨range, value, _⟩ := reference.evaluate_eq separable
      rw [ChainItem.evaluate, ChainItem.evaluate, range, value]
  | .sublist members, separable => by
      rw [ChainItem.evaluate, ChainItem.evaluate, members.evaluate_eq separable]

theorem ChainSeparates.evaluate_eq {chain other : List ChainItem} :
    ChainSeparates chain other → AllSeparable (nodesOfChain true chain) →
      evaluateChain store other = evaluateChain store chain
  | .nil, _ => rfl
  | .cons item rest, separable => by
      obtain ⟨inItem, inRest⟩ := allSeparable_append.mp separable
      rw [evaluateChain, evaluateChain, item.evaluate_eq inItem, rest.evaluate_eq inRest]

theorem MembersSeparate.evaluate_eq {members others : List (List ChainItem)} :
    MembersSeparate members others → AllSeparable (nodesOfMembers true members) →
      evaluateMembers store others = evaluateMembers store members
  | .nil, _ => rfl
  | .cons chain rest, separable => by
      obtain ⟨inChain, inRest⟩ := allSeparable_append.mp separable
      rw [evaluateMembers, evaluateMembers, chain.evaluate_eq inChain, rest.evaluate_eq inRest]

theorem EachSeparates.evaluate_eq {exprs others : List Expr} :
    EachSeparates exprs others → AllSeparable (nodesOfEach true exprs) →
      evaluateWords store others = evaluateWords store exprs
  | .nil, _ => rfl
  | .cons expr rest, separable => by
      obtain ⟨inExpr, inRest⟩ := allSeparable_append.mp separable
      obtain ⟨range, value⟩ := expr.evaluate_eq inExpr
      rw [evaluateWords, evaluateWords, range, value, rest.evaluate_eq inRest]

end

end

/-! ## Trees of the resolver -/

theorem BinaryOperator.noText_of_gives {operator : BinaryOperator} {operand result : Domain}
    (gives : operator.gives? operand = some result) (combined : operator.withoutNot?.isSome) :
    operand ≠ .character := by
  rintro rfl
  cases operator with
  | andNot | orNot | xorNot => cases gives
  | _ => cases combined

theorem allSeparable_resolve {expr : Expr} (untagged : AllUntagged (expr.nodes true))
    (domain : Domain) : AllSeparable ((expr.resolve domain).value.nodes true) := by
  intro node isNode
  cases node with
  | binary operator left right range result operandDomain =>
      intro combined
      obtain ⟨table, entry, isEntry, describes⟩ :=
        Expr.comesFrom_of_mem_nodes untagged isNode rfl
      have gives := describes.gives?_eq (isSound_of_mem_entries isEntry)
      exact BinaryOperator.noText_of_gives gives combined
  | _ => trivial

/-- In the tree that a list of fragments is resolved to, any of the combined operators may be
separated into the operator alone and a `NOT` of its right operand: in every context the tree has
the same value, and the same problems are reported at the same places in the same order. -/
theorem evaluate_separated {expr : Expr} (untagged : ∀ node ∈ expr.nodes true, node.domain? = none)
    (domain : Domain) {other : Expr} (separates : (expr.resolve domain).value.Separates other)
    (context : Context) :
    context.evaluate other = context.evaluate (expr.resolve domain).value ∧
      ∀ required, context.evaluateAs required other =
        context.evaluateAs required (expr.resolve domain).value := by
  obtain ⟨range, value⟩ : other.range = (expr.resolve domain).value.range ∧
      other.evaluate context.store = (expr.resolve domain).value.evaluate context.store :=
    separates.evaluate_eq (allSeparable_resolve untagged domain)
  constructor
  · rw [Context.evaluate, Context.evaluate, value]
  · intro required
    rw [Context.evaluateAs, Context.evaluateAs, Expr.evaluateAs, Expr.evaluateAs, range, value]

/-- What is read from `&A(3 AND NOT 1) OR NOT &B`. -/
def elementOrNot : Expr :=
  .unresolved
    [.variableTerm ⟨.basic "A", [.unresolved
        [.constant 3 (.columns 3 4) none, .symbol "AND" (.columns 5 8) none,
          .symbol "NOT" (.columns 9 12) none, .constant 1 (.columns 13 14) none]
        (.columns 3 14)], .columns 0 15⟩ none,
      .symbol "OR" (.columns 16 18) none, .symbol "NOT" (.columns 19 22) none,
      .variableTerm ⟨.basic "B", [], .columns 23 25⟩ none]
    (.columns 0 25)

/-- A tree of it, given the tree of its subscript and that of the whole for some element. -/
def elementTree (subscript : Expr) (whole : Expr → Expr → Expr) : Expr :=
  .resolved
    (whole
      (.variableTerm ⟨.basic "A", [.resolved subscript false (.columns 3 14) .arithmetic],
        .columns 0 15⟩ (some .arithmetic))
      (.variableTerm ⟨.basic "B", [], .columns 23 25⟩ (some .arithmetic)))
    false (.columns 0 25) .arithmetic

/-- The two combined operators of `&A(3 AND NOT 1) OR NOT &B`, one of which is in a subscript, are
separated.  Neither variable is defined. -/
theorem evaluate_separated_element :
    let three := Expr.constant 3 (.columns 3 4) (some .arithmetic)
    let one := Expr.constant 1 (.columns 13 14) (some .arithmetic)
    let other := elementTree
      (.binary .and three (.unary .not one (.columns 9 14) .arithmetic .arithmetic)
        (.columns 3 14) .arithmetic .arithmetic)
      fun left right => .binary .or left (.unary .not right (.columns 19 25) .arithmetic .arithmetic)
        (.columns 0 25) .arithmetic .arithmetic
    Expr.read "&A(3 AND NOT 1) OR NOT &B" = .ok elementOrNot ∧
      (∀ node ∈ elementOrNot.nodes true, node.domain? = none) ∧
      (elementOrNot.resolve .arithmetic).value.Separates other ∧
      Context.evaluate {} other = (.arithmetic (-1), ⟨{},
        [⟨.undefinedVariable "A", .columns 0 15⟩, ⟨.undefinedVariable "B", .columns 23 25⟩]⟩) := by
  intro three one other
  have read : Expr.read "&A(3 AND NOT 1) OR NOT &B" = .ok elementOrNot := by cbv
  have untagged : ∀ node ∈ elementOrNot.nodes true, node.domain? = none := by
    simp [elementOrNot, Expr.nodes, VariableSymbol.nodes, VariableName.nodes, nodesOfEach,
      Expr.domain?]
  have resolved : (elementOrNot.resolve .arithmetic).value = elementTree
      (.binary .andNot three one (.columns 3 14) .arithmetic .arithmetic)
      fun left right => .binary .orNot left right (.columns 0 25) .arithmetic .arithmetic := by
    cbv
  have separates : (elementOrNot.resolve .arithmetic).value.Separates other := by
    rw [resolved]
    have inSubscript : Expr.Separates
        (.binary .andNot three one (.columns 3 14) .arithmetic .arithmetic)
        (.binary .and three (.unary .not one (.columns 9 14) .arithmetic .arithmetic)
          (.columns 3 14) .arithmetic .arithmetic) :=
      .combined rfl (.refl three) (.refl one)
    exact .resolved (.combined rfl
      (.variableTerm (.basic (.cons (.resolved inSubscript) .nil))) (.refl _))
  refine ⟨read, untagged, separates, ?_⟩
  rw [(evaluate_separated untagged .arithmetic separates {}).1]
  cbv

end ConditionalAssembly
