import ConditionalAssembly.Proofs.Evaluation.Requests

/-!
# Results that differ in their places only

Two results are alike when they have the same value and report the same
problems in the same order, if perhaps at different places of the source.
What a node makes of what was computed for it depends on the node's range only
through the places it reports at.

A resolved list brings the value of its root into its domain and does nothing
else.
-/

namespace ConditionalAssembly

namespace Reported

variable {α β : Type}

/-- What is reported, without the places. -/
def problems (reported : Reported α) : List Problem :=
  reported.diagnostics.map Diagnostic.problem

@[simp]
theorem problems_pure (value : α) : (pure value : Reported α).problems = [] :=
  rfl

@[simp]
theorem problems_bind (first : Reported α) (next : α → Reported β) :
    (first >>= next).problems = first.problems ++ (next first.value).problems :=
  List.map_append

@[simp]
theorem problems_map (f : α → β) (first : Reported α) :
    (f <$> first).problems = first.problems := by
  rw [problems, diagnostics_map, problems]

@[simp]
theorem problems_report (problem : Problem) (range : Range) (value : α) :
    (report problem range value).problems = [problem] :=
  rfl

/-- Two results have the same value and report the same problems. -/
structure Alike (first second : Reported α) : Prop where
  value : first.value = second.value
  problems : first.problems = second.problems

namespace Alike

variable {first second : Reported α}

theorem refl (reported : Reported α) : reported.Alike reported :=
  ⟨rfl, rfl⟩

theorem symm (alike : first.Alike second) : second.Alike first :=
  ⟨alike.value.symm, alike.problems.symm⟩

theorem trans {third : Reported α} (alike : first.Alike second) (other : second.Alike third) :
    first.Alike third :=
  ⟨alike.value.trans other.value, alike.problems.trans other.problems⟩

/-- Steps that are alike may be chained. -/
theorem bind (alike : first.Alike second) {next other : α → Reported β}
    (nextAlike : ∀ value, (next value).Alike (other value)) :
    (first >>= next).Alike (second >>= other) := by
  have behind := nextAlike second.value
  constructor
  · rw [value_bind, value_bind, alike.value, behind.value]
  · rw [problems_bind, problems_bind, alike.problems, alike.value, behind.problems]

/-- Steps that are alike up to a translation of their values may be chained. -/
theorem bind_map {γ δ : Type} {f : α → γ} {g : β → δ} {first : Reported α} {second : Reported γ}
    (alike : (f <$> first).Alike second) {next : α → Reported β} {other : γ → Reported δ}
    (nextAlike : ∀ value, (g <$> next value).Alike (other (f value))) :
    (g <$> (first >>= next)).Alike (second >>= other) := by
  have behind := nextAlike first.value
  have translated : f first.value = second.value := alike.value
  rw [translated] at behind
  constructor
  · exact behind.value
  · have problems := alike.problems
    rw [problems_map] at problems
    rw [problems_map, problems_bind, problems_bind, problems, ← behind.problems, problems_map]

theorem map (alike : first.Alike second) (f : α → β) : (f <$> first).Alike (f <$> second) :=
  ⟨by rw [value_map, value_map, alike.value],
    by rw [problems_map, problems_map, alike.problems]⟩

end Alike

end Reported

namespace Evaluation

open Reported

/-- Where a value is brought into a domain matters only for the place of the report. -/
theorem alike_conform (expected : Domain) (range other : Range) (value : Value) :
    (conform expected range value).Alike (conform expected other value) := by
  unfold conform
  split
  next => exact .refl _
  next => split <;> exact ⟨rfl, rfl⟩

theorem alike_limited (range other : Range) (value : Value) :
    (limited range value).Alike (limited other value) := by
  unfold limited
  split
  next => split <;> exact ⟨rfl, rfl⟩
  next => exact .refl _

theorem alike_settle {first second : Reported (Except Problem Value)} (alike : first.Alike second)
    (domain : Option Domain) (range other : Range) :
    (settle domain range first).Alike (settle domain other second) := by
  cases domain with
  | none => exact ⟨rfl, rfl⟩
  | some domain =>
      apply alike.bind
      rintro (problem | value)
      · exact ⟨rfl, rfl⟩
      · exact (alike_limited range other value).bind (alike_conform domain range other)

theorem alike_number {first second : Reported Value} (alike : first.Alike second)
    (range other : Range) : (number range first).Alike (number other second) :=
  alike.bind fun value => (alike_conform .arithmetic range other value).bind fun _ => .refl _

theorem alike_duplicate (range other : Range) (text : String) (factor : Int32) :
    (duplicate range text factor).Alike (duplicate other text factor) := by
  unfold duplicate
  split
  next => exact .refl _
  next => dsimp only; split <;> exact ⟨rfl, rfl⟩

theorem limited_of_fits {value : Value} (fits : value.Fits) (range : Range) :
    limited range value = pure value := by
  cases value with
  | arithmetic word => rfl
  | binary truth => rfl
  | character text => exact if_pos fits

theorem settle_of_fits {value : Value} (fits : value.Fits) (range : Range) :
    settle (some value.domain) range (pure (.ok value)) = pure value := by
  change limited range value >>= conform value.domain range = pure value
  rw [limited_of_fits fits]
  exact conform_of_domain rfl range

end Evaluation

open Evaluation

namespace Expr

/-- A resolved list brings the value of its root into its domain. -/
theorem evaluate_resolved (store : Store) (root : Expr) (range : Range) (domain : Domain) :
    (resolved root false range domain).evaluate store =
      root.evaluate store >>= conform domain range := by
  have whole : (limited range (root.evaluate store).value) = pure (root.evaluate store).value :=
    limited_of_fits (root.fits_evaluate store) range
  rw [evaluate, settle]
  simp only [Bool.false_eq_true, if_false]
  apply Reported.ext <;> simp [whole]

theorem evaluate_resolved_of_domain (store : Store) {root : Expr} {domain : Domain}
    (same : root.domain?.getD .arithmetic = domain) (range : Range) :
    (resolved root false range domain).evaluate store = root.evaluate store := by
  have conforms := conform_of_domain ((root.domain_evaluate store).trans same) range
  rw [evaluate_resolved]
  apply Reported.ext <;> simp [conforms]

theorem evaluateAs_of_domain (store : Store) {expr : Expr} {domain : Domain}
    (same : expr.domain?.getD .arithmetic = domain) :
    expr.evaluateAs store domain = expr.evaluate store := by
  have conforms := conform_of_domain ((expr.domain_evaluate store).trans same) expr.range
  rw [evaluateAs]
  apply Reported.ext <;> simp [conforms]

/-- A resolved list has the value that is required of its root, and nothing else is reported. -/
theorem alike_evaluate_resolved (store : Store) (root : Expr) (range : Range) (domain : Domain) :
    ((resolved root false range domain).evaluate store).Alike (root.evaluateAs store domain) := by
  rw [evaluate_resolved]
  exact (Reported.Alike.refl _).bind (alike_conform domain range root.range)

section

variable {store : Store} (domain operandDomain : Domain) (range place : Range)

/-- A unary node has the value that an operand like its own gives. -/
theorem alike_evaluate_unary {operand other : Expr}
    (alike : (operand.evaluate store).Alike (other.evaluate store)) (operator : UnaryOperator) :
    ((unary operator operand range domain operandDomain).evaluate store).Alike
      ((unary operator other place domain operandDomain).evaluate store) := by
  rw [evaluate, evaluate]
  apply alike_settle
  apply alike.bind
  intro value
  exact (alike_conform operandDomain _ _ value).bind fun _ => .refl _

/-- A binary node has the value that operands like its own give. -/
theorem alike_evaluate_binary {left right first second : Expr}
    (leftAlike : (left.evaluate store).Alike (first.evaluate store))
    (rightAlike : (right.evaluate store).Alike (second.evaluate store))
    (operator : BinaryOperator) :
    ((binary operator left right range domain operandDomain).evaluate store).Alike
      ((binary operator first second place domain operandDomain).evaluate store) := by
  rw [evaluate, evaluate]
  apply alike_settle
  apply leftAlike.bind
  intro leftValue
  apply (alike_conform operandDomain _ _ leftValue).bind
  intro conformed
  apply rightAlike.bind
  intro rightValue
  exact (alike_conform operandDomain _ _ rightValue).bind fun _ => .refl _

end

end Expr

end ConditionalAssembly
