import ConditionalAssembly.Evaluation
import ConditionalAssembly.Proofs.Expr.Nodes

/-!
# What evaluation reports

The problems with the structure of a list belong to resolution.  No operator
and no look-up answers with one of them, and neither with the problem of a
node that was never resolved: that one is left to nodes without a domain.
Every other step passes on what it was given.
-/

namespace ConditionalAssembly

namespace Problem

/-- A list of fragments is no expression. -/
def IsStructural (problem : Problem) : Prop :=
  problem = .invalidOperator ∨ problem = .missingOperand

/-- A problem that can come up while a resolved node is evaluated. -/
def IsOrdinary : Problem → Prop
  | .invalidOperator | .missingOperand | .unresolvedExpression => False
  | _ => True

theorem isOrdinary_iff {problem : Problem} :
    problem.IsOrdinary ↔ ¬ problem.IsStructural ∧ problem ≠ .unresolvedExpression := by
  cases problem <;> simp [IsOrdinary, IsStructural]

theorem isStructural_iff_code {problem : Problem} :
    problem.IsStructural ↔ problem.code = "CE001" ∨ problem.code = "CE003" := by
  cases problem <;> simp [IsStructural, code]

theorem isOrdinary_mismatch (left right : Value) : (mismatch left right).IsOrdinary := by
  unfold mismatch
  split <;> trivial

end Problem

/-- An outcome is a value or an ordinary problem. -/
def Ordinary {α : Type} (outcome : Except Problem α) : Prop :=
  ∀ problem, outcome = .error problem → problem.IsOrdinary

/-! ## Outcomes -/

section Outcomes

variable {α β : Type}

@[simp]
theorem ordinary_ok (value : α) : Ordinary (.ok value) :=
  nofun

@[simp]
theorem ordinary_error {problem : Problem} :
    Ordinary (.error problem : Except Problem α) ↔ problem.IsOrdinary := by
  simp [Ordinary]

theorem Ordinary.map {outcome : Except Problem α} (ordinary : Ordinary outcome) (f : α → β) :
    Ordinary (outcome.map f) := by
  cases outcome with
  | ok value => exact ordinary_ok _
  | error problem => exact ordinary_error.mpr (ordinary problem rfl)

end Outcomes

namespace BinaryOperator

theorem ordinary_exact (n : Int) : Ordinary (exact n) := by
  unfold exact
  split <;> simp [Problem.IsOrdinary]

/-- An operator that takes words is applied to two of them. -/
theorem ordinary_words {outcome : Int32 → Int32 → Except Problem Int32}
    (ordinary : ∀ leftWord rightWord, Ordinary (outcome leftWord rightWord))
    {left right : Value} :
    Ordinary (match left, right with
      | .arithmetic leftWord, .arithmetic rightWord =>
          Value.arithmetic <$> outcome leftWord rightWord
      | _, _ => .error (.mismatch left right)) := by
  split
  next => exact (ordinary _ _).map _
  next => exact ordinary_error.mpr (Problem.isOrdinary_mismatch left right)

/-- A logical operator combines two words or two truth values. -/
theorem ordinary_logic {operator : BinaryOperator}
    (combines : ∀ {β : Type} (and or xor : β → β → β) (not : β → β) (left right : β),
      Ordinary (connective and or xor not operator left right)) {left right : Value} :
    Ordinary (operator.logic left right) := by
  unfold logic
  split
  next => exact Ordinary.map (combines _ _ _ _ _ _) _
  next => exact Ordinary.map (combines _ _ _ _ _ _) _
  next => exact ordinary_error.mpr (Problem.isOrdinary_mismatch _ _)

/-- A relational operator compares two words or two texts. -/
theorem ordinary_comparison {operator : BinaryOperator}
    (compares : ∀ order, Ordinary (operator.holdsFor order)) {left right : Value} :
    Ordinary (operator.comparison left right) := by
  unfold comparison
  split
  next => exact (compares _).map _
  next => exact (compares _).map _
  next => exact ordinary_error.mpr (Problem.isOrdinary_mismatch _ _)

/-- Applied to any values, a binary operator meets ordinary problems only. -/
theorem ordinary_apply (operator : BinaryOperator) (left right : Value) :
    Ordinary (operator.apply left right) := by
  cases operator with
  | add | sub | mul | sla =>
      apply ordinary_words
      intro leftWord rightWord
      exact ordinary_exact _
  | div =>
      apply ordinary_words
      intro leftWord rightWord
      rw [scalar]
      split
      next => exact ordinary_ok _
      next => exact ordinary_exact _
  | sll | sra | srl =>
      apply ordinary_words
      intro leftWord rightWord
      exact ordinary_ok _
  | and | or | xor | andNot | orNot | xorNot =>
      apply ordinary_logic
      intros
      exact ordinary_ok _
  | index | find | concat =>
      rw [apply, textual.eq_def]
      split
      next => exact ordinary_ok _
      next => exact ordinary_error.mpr (Problem.isOrdinary_mismatch _ _)
  | equal | notEqual | less | lessEqual | greater | greaterEqual =>
      apply ordinary_comparison
      intro order
      exact ordinary_ok _

end BinaryOperator

/-- Applied to any value, a unary operator meets ordinary problems only. -/
theorem UnaryOperator.ordinary_apply (operator : UnaryOperator) (value : Value) :
    Ordinary (operator.apply value) := by
  unfold UnaryOperator.apply
  split
  next => exact ordinary_ok _
  next => exact (BinaryOperator.ordinary_exact _).map _
  next => exact ordinary_ok _
  next => exact ordinary_ok _
  next => exact ordinary_ok _
  next => exact ordinary_ok _
  next => exact ordinary_ok _
  next => exact ordinary_ok _
  next => split <;> simp [Problem.IsOrdinary]
  next => simp [Problem.IsOrdinary]

namespace Evaluation

theorem ordinary_symbol (store : Store) (name : String) : Ordinary (symbol store name) := by
  unfold symbol
  split <;> simp [Problem.IsOrdinary]

theorem ordinary_symbolAttribute (store : Store) (kind : Attribute) (name : String) :
    Ordinary (symbolAttribute store kind name) := by
  unfold symbolAttribute
  split <;> simp [Problem.IsOrdinary]

theorem ordinary_variableValue (store : Store) (name : String) (subscript : List Int32) :
    Ordinary (variableValue store name subscript) := by
  unfold variableValue
  split <;> simp [Problem.IsOrdinary]

theorem ordinary_select (text : String) (start : Int32) (count : Option Int32) :
    Ordinary (select text start count) := by
  unfold select
  dsimp only
  split
  next => simp [Problem.IsOrdinary]
  next =>
    split
    next => exact ordinary_ok _
    next => split <;> simp [Problem.IsOrdinary]

end Evaluation

/-! ## Steps -/

/-- Whatever is reported is one of the problems that are allowed. -/
def Reported.Within {α : Type} (allowed : Problem → Prop) (reported : Reported α) : Prop :=
  ∀ diagnostic ∈ reported.diagnostics, allowed diagnostic.problem

section

variable {allowed : Problem → Prop}

namespace Reported

variable {α β : Type}

theorem within_pure (value : α) : (pure value : Reported α).Within allowed :=
  nofun

theorem within_report {problem : Problem} (isAllowed : allowed problem) {range : Range}
    {value : α} : (report problem range value).Within allowed := by
  intro diagnostic found
  cases List.mem_singleton.mp found
  exact isAllowed

/-- A step passes on what it was given. -/
theorem Within.bind {first : Reported α} {next : α → Reported β} (within : first.Within allowed)
    (further : (next first.value).Within allowed) : (first >>= next).Within allowed := by
  intro diagnostic found
  rcases List.mem_append.mp found with earlier | later
  · exact within diagnostic earlier
  · exact further diagnostic later

theorem Within.map {first : Reported α} (within : first.Within allowed) (f : α → β) :
    (f <$> first).Within allowed := by
  intro diagnostic found
  rw [diagnostics_map] at found
  exact within diagnostic found

end Reported

/-- Ordinary problems are allowed, and that of an unresolved node is unless every one of some
nodes has a domain. -/
structure Allows (allowed : Problem → Prop) (nodes : List Expr) : Prop where
  ordinary : ∀ {problem : Problem}, problem.IsOrdinary → allowed problem
  unresolved : ∀ node ∈ nodes, node.domain? = none → allowed .unresolvedExpression

namespace Allows

theorem left {first second : List Expr} (allows : Allows allowed (first ++ second)) :
    Allows allowed first where
  ordinary := allows.ordinary
  unresolved node isNode := allows.unresolved node (List.mem_append_left _ isNode)

theorem right {first second : List Expr} (allows : Allows allowed (first ++ second)) :
    Allows allowed second where
  ordinary := allows.ordinary
  unresolved node isNode := allows.unresolved node (List.mem_append_right _ isNode)

theorem tail {node : Expr} {rest : List Expr} (allows : Allows allowed (node :: rest)) :
    Allows allowed rest where
  ordinary := allows.ordinary
  unresolved inner isInner := allows.unresolved inner (List.mem_cons_of_mem _ isInner)

end Allows

namespace Evaluation

open Reported

section

variable {nodes : List Expr} (allows : Allows allowed nodes)

include allows

theorem within_conform (expected : Domain) (range : Range) (value : Value) :
    (conform expected range value).Within allowed := by
  unfold conform
  split
  next => exact within_pure _
  next =>
    split
    next => exact within_pure _
    next => exact within_pure _
    next =>
      apply within_report
      exact allows.ordinary trivial

theorem within_limited (range : Range) (value : Value) : (limited range value).Within allowed := by
  unfold limited
  split
  next =>
    split
    next => exact within_pure _
    next =>
      apply within_report
      exact allows.ordinary trivial
  next => exact within_pure _

/-- A node reports what comes up while it is computed, and that it is unresolved if it is. -/
theorem within_settle {domain : Option Domain} (range : Range)
    (unresolved : domain = none → allowed .unresolvedExpression)
    {computed : Reported (Except Problem Value)} (within : computed.Within allowed)
    (ordinary : Ordinary computed.value) : (settle domain range computed).Within allowed := by
  cases domain with
  | none => exact within_report (unresolved rfl)
  | some domain =>
      apply within.bind
      cases outcome : computed.value with
      | ok value => exact (within_limited allows range value).bind (within_conform allows _ _ _)
      | error problem => exact within_report (allows.ordinary (ordinary problem outcome))

theorem within_number (range : Range) {computed : Reported Value}
    (within : computed.Within allowed) : (number range computed).Within allowed :=
  within.bind ((within_conform allows _ _ _).bind (within_pure _))

theorem within_duplicate (range : Range) (text : String) (factor : Int32) :
    (duplicate range text factor).Within allowed ∧
      Ordinary (duplicate range text factor).value := by
  unfold duplicate
  split
  next => exact ⟨within_pure _, ordinary_error.mpr trivial⟩
  next =>
    dsimp only
    split
    next => exact ⟨within_pure _, ordinary_ok _⟩
    next =>
      constructor
      · apply within_report
        exact allows.ordinary trivial
      · exact ordinary_ok _

/-- Copies of what was selected, if it could be. -/
theorem within_copies (range : Range) (outcome : Except Problem String) {factor : Reported Int32}
    (within : factor.Within allowed) :
    let copies : Reported (Except Problem String) :=
      match outcome with
      | .error problem => pure (.error problem)
      | .ok selected => factor >>= duplicate range selected
    Ordinary outcome → copies.Within allowed ∧ Ordinary copies.value := by
  intro copies ordinary
  cases outcome with
  | error problem => exact ⟨within_pure _, ordinary⟩
  | ok selected =>
      rcases within_duplicate allows range selected factor.value with ⟨copiesWithin, copiesOrdinary⟩
      exact ⟨within.bind copiesWithin, copiesOrdinary⟩

end

end Evaluation

end

/-! ## Trees -/

open Evaluation Reported

section

variable {store : Store} {allowed : Problem → Prop}

mutual

/-- A tree reports ordinary problems, and that nodes are unresolved if there are such nodes. -/
theorem Expr.within_evaluate :
    ∀ expr : Expr, Allows allowed (expr.nodes true) → (expr.evaluate store).Within allowed
  | .constant _ _ _, allows => by
      have own := allows.unresolved _ (List.mem_cons_self ..)
      exact within_settle allows _ own (within_pure _) (ordinary_ok _)
  | .symbol name _ _, allows => by
      have own := allows.unresolved _ (List.mem_cons_self ..)
      exact within_settle allows _ own (within_pure _) (ordinary_symbol store name)
  | .variableTerm reference _, allows => by
      have own := allows.unresolved _ (List.mem_cons_self ..)
      rcases reference.within_evaluate allows.tail with ⟨within, ordinary⟩
      exact within_settle allows _ own within ordinary
  | .symbolAttribute kind name _ _, allows => by
      have own := allows.unresolved _ (List.mem_cons_self ..)
      exact within_settle allows _ own (within_pure _) (ordinary_symbolAttribute store kind name)
  | .variableAttribute kind reference _ _, allows => by
      have own := allows.unresolved _ (List.mem_cons_self ..)
      rcases reference.within_evaluateAttribute kind allows.tail with ⟨within, ordinary⟩
      exact within_settle allows _ own within ordinary
  | .string term range _, allows => by
      have own := allows.unresolved _ (List.mem_cons_self ..)
      rcases term.within_evaluate range allows.tail with ⟨within, ordinary⟩
      exact within_settle allows _ own (within.map _) (ordinary.map _)
  | .unresolved _ _, allows => within_report (allows.unresolved _ (List.mem_cons_self ..) rfl)
  | .resolved root recovered _ _, allows => by
      have own := allows.unresolved _ (List.mem_cons_self ..)
      refine within_settle allows _ own ?_ ?_ <;> cases recovered
      · exact (root.within_evaluate allows.tail).map _
      · exact within_pure _
      · exact ordinary_ok _
      · exact ordinary_ok _
  | .unary operator operand _ _ _, allows => by
      have own := allows.unresolved _ (List.mem_cons_self ..)
      have within := operand.within_evaluate allows.tail
      refine within_settle allows _ own ?_ (operator.ordinary_apply _)
      exact within.bind ((within_conform allows _ _ _).bind (within_pure _))
  | .binary operator left right _ _ _, allows => by
      have own := allows.unresolved _ (List.mem_cons_self ..)
      have leftWithin := left.within_evaluate allows.tail.left
      have rightWithin := right.within_evaluate allows.tail.right
      refine within_settle allows _ own ?_ (operator.ordinary_apply _ _)
      exact leftWithin.bind ((within_conform allows _ _ _).bind
        (rightWithin.bind ((within_conform allows _ _ _).bind (within_pure _))))

theorem VariableSymbol.within_evaluate :
    ∀ reference : VariableSymbol, Allows allowed (reference.nodes true) →
      (reference.evaluate store).Within allowed ∧ Ordinary (reference.evaluate store).value
  | ⟨name, subscript, _⟩, allows => by
      have nameWithin := name.within_evaluate allows.left
      have subscriptWithin := within_evaluateWords subscript allows.right
      exact ⟨nameWithin.bind (subscriptWithin.bind (within_pure _)), ordinary_variableValue _ _ _⟩

theorem VariableSymbol.within_evaluateAttribute (kind : Attribute) :
    ∀ reference : VariableSymbol, Allows allowed (reference.nodes true) →
      (reference.evaluateAttribute store kind).Within allowed ∧
        Ordinary (reference.evaluateAttribute store kind).value
  | ⟨name, subscript, _⟩, allows => by
      have nameWithin := name.within_evaluate allows.left
      have subscriptWithin := within_evaluateWords subscript allows.right
      rw [VariableSymbol.evaluateAttribute]
      by_cases isNumber : kind = .number
      · simp only [isNumber, if_true]
        exact ⟨nameWithin.bind (within_pure _), ordinary_ok _⟩
      · simp only [isNumber, if_false]
        exact ⟨nameWithin.bind (subscriptWithin.bind (within_pure _)),
          (ordinary_variableValue _ _ _).map _⟩

theorem VariableName.within_evaluate :
    ∀ name : VariableName, Allows allowed (name.nodes true) → (name.evaluate store).Within allowed
  | .basic _, _ => within_pure _
  | .created chain, allows => (within_evaluateChain chain allows).map _

theorem StringTerm.within_evaluate (range : Range) :
    ∀ term : StringTerm, Allows allowed (term.nodes true) →
      (term.evaluate store range).Within allowed ∧ Ordinary (term.evaluate store range).value
  | ⟨none, chain, selection⟩, allows => by
      have chainWithin := within_evaluateChain chain allows.left.right
      rcases selection.within_evaluate _ allows.right with ⟨within, ordinary⟩
      exact ⟨chainWithin.bind within, ordinary⟩
  | ⟨some factor, chain, selection⟩, allows => by
      have chainWithin := within_evaluateChain chain allows.left.right
      have factorWithin := factor.within_evaluate allows.left.left
      obtain ⟨within, ordinary⟩ :=
        selection.within_evaluate (evaluateChain store chain).value allows.right
      obtain ⟨copiesWithin, copiesOrdinary⟩ :=
        within_copies allows range _ (within_number allows factor.range factorWithin) ordinary
      exact ⟨chainWithin.bind (within.bind copiesWithin), copiesOrdinary⟩

theorem Selection.within_evaluate (text : String) :
    ∀ selection : Selection, Allows allowed (selection.nodes true) →
      (selection.evaluate store text).Within allowed ∧
        Ordinary (selection.evaluate store text).value
  | ⟨none, _, _⟩, _ => ⟨within_pure _, ordinary_ok _⟩
  | ⟨some start, none, _⟩, allows => by
      have startWithin := start.within_evaluate allows.left
      rw [Selection.evaluate]
      constructor
      · exact (within_number allows _ startWithin).bind (within_pure _)
      · rw [value_bind, value_pure]
        exact ordinary_select text _ none
  | ⟨some start, some count, toEnd⟩, allows => by
      have startWithin := start.within_evaluate allows.left
      have countWithin := count.within_evaluate allows.right
      rw [Selection.evaluate]
      cases toEnd with
      | true =>
          simp only [if_true]
          constructor
          · exact (within_number allows _ startWithin).bind (within_pure _)
          · rw [value_bind, value_pure]
            exact ordinary_select text _ none
      | false =>
          simp only [Bool.false_eq_true, if_false]
          constructor
          · apply (within_number allows _ startWithin).bind
            exact (within_number allows _ countWithin).bind (within_pure _)
          · rw [value_bind, value_bind, value_pure]
            exact ordinary_select text _ (some _)

theorem ChainItem.within_evaluate :
    ∀ item : ChainItem, Allows allowed (item.nodes true) → (item.evaluate store).Within allowed
  | .text _, _ | .dot, _ | .equals, _ => within_pure _
  | .variableItem reference, allows => by
      rcases reference.within_evaluate allows with ⟨within, ordinary⟩
      apply within.bind
      cases outcome : (reference.evaluate store).value with
      | ok value => exact within_pure _
      | error problem => exact within_report (allows.ordinary (ordinary problem outcome))
  | .sublist members, allows => within_evaluateMembers members allows

theorem within_evaluateChain :
    ∀ chain : List ChainItem, Allows allowed (nodesOfChain true chain) →
      (evaluateChain store chain).Within allowed
  | [], _ => within_pure _
  | item :: rest, allows => by
      have restWithin := within_evaluateChain rest allows.right
      exact (item.within_evaluate allows.left).bind (restWithin.bind (within_pure _))

theorem within_evaluateMembers :
    ∀ members : List (List ChainItem), Allows allowed (nodesOfMembers true members) →
      (evaluateMembers store members).Within allowed
  | [], _ => within_pure _
  | chain :: rest, allows => by
      have restWithin := within_evaluateMembers rest allows.right
      exact (within_evaluateChain chain allows.left).bind (restWithin.bind (within_pure _))

theorem within_evaluateWords :
    ∀ exprs : List Expr, Allows allowed (nodesOfEach true exprs) →
      (evaluateWords store exprs).Within allowed
  | [], _ => within_pure _
  | expr :: rest, allows => by
      have within := within_number allows expr.range (expr.within_evaluate allows.left)
      exact within.bind ((within_evaluateWords rest allows.right).bind (within_pure _))

end

end

end ConditionalAssembly
