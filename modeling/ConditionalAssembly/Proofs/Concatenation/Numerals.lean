import ConditionalAssembly.Word
import Mathlib.Data.List.Induction
import Mathlib.Tactic.IntervalCases

/-!
# Runs of digits as numbers

A run of digits is the numeral of the number it denotes, unless it begins with a
zero that another digit follows.  Such a run is longer than the numeral.
-/

namespace ConditionalAssembly.Decimal

/-- A run of digits begins with a zero that another digit follows. -/
def isPadded : List Char → Bool
  | '0' :: _ :: _ => true
  | _ => false

theorem all_isDigit_toDigits (n : Nat) : (Nat.toDigits 10 n).all Char.isDigit := by
  apply List.all_eq_true.mpr
  intro c isDigit
  exact Nat.isDigit_of_mem_toDigits (by decide) (by decide) isDigit

theorem exists_digitChar {c : Char} (digit : c.isDigit) : ∃ n < 10, c = n.digitChar := by
  have bounds : 48 ≤ c.toNat ∧ c.toNat ≤ 57 := by
    simpa [Char.isDigit, UInt32.le_iff_toNat_le] using digit
  refine ⟨c.toNat - 48, by omega, ?_⟩
  rw [← Char.ofNat_toNat c]
  generalize c.toNat = code at bounds
  obtain ⟨lower, upper⟩ := bounds
  interval_cases code <;> decide

theorem value_append_digit (digits : List Char) {n : Nat} (below : n < 10) :
    value (digits ++ [n.digitChar]) = 10 * value digits + n := by
  rw [value, Nat.ofDigitChars_append, Nat.ofDigitChars_cons_digitChar_of_lt_ten below,
    Nat.ofDigitChars_nil]
  rfl

theorem value_zero_cons (digits : List Char) : value ('0' :: digits) = value digits := by
  rw [value, Nat.ofDigitChars_cons]
  rfl

/-- Digits that do not begin with a zero are the numeral of their number. -/
theorem toDigits_value_cons {c : Char} {cs : List Char} (digits : (c :: cs).all Char.isDigit)
    (nonzero : c ≠ '0') : Nat.toDigits 10 (value (c :: cs)) = c :: cs := by
  induction cs using List.reverseRecOn with
  | nil =>
      obtain ⟨n, below, rfl⟩ := exists_digitChar (List.all_eq_true.mp digits c (by simp))
      have single := value_append_digit [] below
      rw [List.nil_append] at single
      rw [single]
      exact (Nat.toDigits_of_lt_base (by simpa [value] using below)).trans (by simp [value])
  | append_singleton cs d ih =>
      rw [← List.cons_append, List.all_append, Bool.and_eq_true] at digits
      obtain ⟨n, below, rfl⟩ := exists_digitChar (List.all_eq_true.mp digits.2 d (by simp))
      have front := ih digits.1
      have positive : 0 < value (c :: cs) := by
        rw [Nat.pos_iff_ne_zero]
        intro zero
        rw [zero, Nat.toDigits_zero] at front
        exact nonzero (List.cons.inj front).1.symm
      rw [← List.cons_append, value_append_digit _ below,
        ← Nat.toDigits_append_toDigits (by decide) positive below, front,
        Nat.toDigits_of_lt_base below]

/-- Digits without a leading zero are the numeral of their number. -/
theorem toDigits_value {digits : List Char} (all : digits.all Char.isDigit)
    (nonempty : digits ≠ []) (bare : isPadded digits = false) :
    Nat.toDigits 10 (value digits) = digits := by
  cases digits with
  | nil => exact absurd rfl nonempty
  | cons c cs =>
      by_cases zero : c = '0'
      · subst zero
        cases cs with
        | nil => decide
        | cons d ds => exact nomatch bare
      · exact toDigits_value_cons all zero

/-- Digits are at least as many as the numeral of their number needs. -/
theorem length_toDigits_value_le {digits : List Char} (all : digits.all Char.isDigit)
    (nonempty : digits ≠ []) : (Nat.toDigits 10 (value digits)).length ≤ digits.length := by
  induction digits with
  | nil => exact absurd rfl nonempty
  | cons c cs ih =>
      by_cases zero : c = '0'
      · subst zero
        cases cs with
        | nil => decide
        | cons d ds =>
            rw [value_zero_cons]
            rw [List.all_cons, Bool.and_eq_true] at all
            exact Nat.le_succ_of_le (ih all.2 (List.cons_ne_nil d ds))
      · rw [toDigits_value_cons all zero]

/-- Digits with a leading zero are more than the numeral of their number needs. -/
theorem length_toDigits_value_lt {digits : List Char} (all : digits.all Char.isDigit)
    (padded : isPadded digits = true) :
    (Nat.toDigits 10 (value digits)).length < digits.length := by
  unfold isPadded at padded
  split at padded
  next d ds =>
    rw [List.all_cons, Bool.and_eq_true] at all
    rw [value_zero_cons]
    exact Nat.lt_succ_of_le (length_toDigits_value_le all.2 (List.cons_ne_nil d ds))
  next => exact nomatch padded

end ConditionalAssembly.Decimal
