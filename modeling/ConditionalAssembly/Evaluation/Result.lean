import ConditionalAssembly.Reported
import ConditionalAssembly.Store

/-!
# Results of nodes

Whatever a node computes is brought into the node's domain: texts are cut at
the greatest length, values of another domain are replaced, and a problem
leaves the default of the domain behind.  Each of these is reported.
-/

namespace ConditionalAssembly

/-- The greatest number of characters a character value may have. -/
def Value.maxLength : Nat :=
  4064

namespace Evaluation

/-- The value in an expected domain: zero and one count as truth values, and
any other value outside the domain is replaced by its default. -/
def conform (expected : Domain) (range : Range) (value : Value) : Reported Value :=
  if value.domain = expected then pure value
  else
    match value, expected with
    | .arithmetic 0, .binary => pure (.binary false)
    | .arithmetic 1, .binary => pure (.binary true)
    | _, _ => .report (.typeMismatch expected value.domain) range expected.default

/-- The value with its text cut at the greatest length. -/
def limited (range : Range) : Value → Reported Value
  | .character text =>
      if text.length ≤ Value.maxLength then pure (.character text)
      else
        .report (.stringTooLong text.length Value.maxLength) range
          (.character (String.ofList (text.toList.take Value.maxLength)))
  | value => pure value

/-- The value of a node of a domain, given what the node computes. -/
def settle (domain : Option Domain) (range : Range) (computed : Reported (Except Problem Value)) :
    Reported Value :=
  match domain with
  | none => .report .unresolvedExpression range (.arithmetic 0)
  | some domain => do
      match ← computed with
      | .ok value => conform domain range (← limited range value)
      | .error problem => .report problem range domain.default

/-- A value brought into a domain belongs to it. -/
@[simp]
theorem domain_conform (expected : Domain) (range : Range) (value : Value) :
    (conform expected range value).value.domain = expected := by
  unfold conform
  split
  next same => exact same
  next =>
    split
    next => rfl
    next => rfl
    next => exact Domain.domain_default expected

theorem conform_of_domain {expected : Domain} {value : Value} (same : value.domain = expected)
    (range : Range) : conform expected range value = pure value := by
  unfold conform
  rw [if_pos same]

theorem domain_settle (domain : Option Domain) (range : Range)
    (computed : Reported (Except Problem Value)) :
    (settle domain range computed).value.domain = domain.getD .arithmetic := by
  unfold settle
  split
  next => rfl
  next => cases same : computed.value <;> simp [same]

end Evaluation

end ConditionalAssembly
