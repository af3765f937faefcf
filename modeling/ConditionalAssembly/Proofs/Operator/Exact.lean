import Mathlib.Algebra.Group.Int.Defs
import ConditionalAssembly.Operator.Apply

/-!
# Results that are words

The integers that words denote are those of 32 bits with a sign.  An exact
result is the word for it if there is one, and an overflow otherwise.
-/

namespace ConditionalAssembly

/-- The integer has a word of 32 bits that denotes it. -/
def Word.Holds (n : Int) : Prop :=
  -2 ^ 31 ≤ n ∧ n < 2 ^ 31

instance (n : Int) : Decidable (Word.Holds n) :=
  inferInstanceAs (Decidable (-2 ^ 31 ≤ n ∧ n < 2 ^ 31))

namespace Word

/-- Every word denotes an integer of the range. -/
theorem holds_toInt (word : Int32) : Holds word.toInt :=
  ⟨word.le_toInt, word.toInt_lt⟩

theorem holds_iff {n : Int} : Holds n ↔ Int32.minValue.toInt ≤ n ∧ n ≤ Int32.maxValue.toInt := by
  change -2 ^ 31 ≤ n ∧ n < 2 ^ 31 ↔ -2147483648 ≤ n ∧ n ≤ 2147483647
  omega

theorem toInt_ofInt_of_holds {n : Int} (holds : Holds n) : (Int32.ofInt n).toInt = n := by
  obtain ⟨lower, upper⟩ := holds_iff.mp holds
  exact toInt_ofInt_of_mem lower upper

end Word

namespace BinaryOperator

theorem exact_eq (n : Int) :
    exact n = if Word.Holds n then .ok (Int32.ofInt n) else .error .arithmeticOverflow := by
  unfold exact Word.ofInt?
  simp only [← Word.holds_iff]
  by_cases holds : Word.Holds n
  · rw [if_pos holds, if_pos holds]
  · rw [if_neg holds, if_neg holds]

/-- A result is refused exactly when no word denotes it, and then it is an overflow. -/
theorem exact_eq_error_iff {n : Int} {problem : Problem} :
    exact n = .error problem ↔ ¬ Word.Holds n ∧ problem = .arithmeticOverflow := by
  rw [exact_eq]
  by_cases holds : Word.Holds n
  · simp [holds]
  · simp [holds, eq_comm]

end BinaryOperator

end ConditionalAssembly
