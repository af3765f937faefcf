import Mathlib
import ConditionalAssembly.Proofs.Operator.Exact

/-!
# Shifts

A shift multiplies or divides by a power of two.  The arithmetic shifts do so
with the integer that a word denotes, the logical ones with its bits read
without a sign.  A machine carries them out in registers, which it moves only
by fewer places than they have: by a wider register, by refusing amounts that
leave nothing, and by stopping at the last place that matters.
-/

namespace ConditionalAssembly

/-! ## Words and their bits -/

/-- The bits of a word, read as a number without a sign. -/
def Word.pattern (word : Int32) : Int :=
  word.toInt % 2 ^ 32

theorem Word.toNat_toBitVec (word : Int32) : (word.toBitVec.toNat : Int) = pattern word := by
  have reading : word.toInt = Int.bmod word.toBitVec.toNat (2 ^ 32) := by
    rw [← Int32.toInt_toBitVec, BitVec.toInt_eq_toNat_bmod]
  have bounded := word.toBitVec.isLt
  rw [pattern, reading]
  change _ = Int.bmod _ _ % ((2 ^ 32 : Nat) : Int)
  rw [Int.bmod_emod]
  omega

theorem Word.pattern_ofBitVec (bits : BitVec 32) : pattern (.ofBitVec bits) = bits.toNat := by
  rw [← toNat_toBitVec, Int32.toBitVec_ofBitVec]

theorem Word.eq_of_pattern_eq {first second : Int32} (same : pattern first = pattern second) :
    first = second := by
  rw [← toNat_toBitVec, ← toNat_toBitVec] at same
  exact Int32.toBitVec_inj.mp (BitVec.eq_of_toNat_eq (Int.ofNat.inj same))

namespace BinaryOperator

theorem shiftAmount_eq (amount : Int32) : shiftAmount amount = (amount.toInt % 64).toNat := by
  have bits := Word.toNat_toBitVec amount
  unfold Word.pattern at bits
  unfold shiftAmount
  omega

theorem shiftAmount_lt (amount : Int32) : shiftAmount amount < 64 :=
  Nat.mod_lt _ (by decide)

/-! ## Each shift -/

variable {word amount : Int32}

/-- `SLA` multiplies by a power of two, as long as there is a word for the product. -/
theorem scalar_sla (word amount : Int32) :
    scalar .sla word amount = exact (word.toInt * 2 ^ shiftAmount amount) := by
  rw [scalar, Int.shiftLeft_eq]

/-- `SLA` does not overflow exactly when some word denotes the product. -/
theorem scalar_sla_eq_ok_iff {result : Int32} :
    scalar .sla word amount = .ok result ↔
      result.toInt = word.toInt * 2 ^ shiftAmount amount := by
  rw [scalar_sla, exact_eq_ok_iff]

/-- `SLL` multiplies the bits by a power of two and drops what leaves the word. -/
theorem exists_scalar_sll (word amount : Int32) :
    ∃ result, scalar .sll word amount = .ok result ∧
      Word.pattern result = Word.pattern word * 2 ^ shiftAmount amount % 2 ^ 32 := by
  refine ⟨_, rfl, ?_⟩
  rw [Word.pattern_ofBitVec, ← Word.toNat_toBitVec, BitVec.toNat_shiftLeft, Nat.shiftLeft_eq]
  push_cast
  rfl

/-- `SRL` divides the bits by a power of two. -/
theorem exists_scalar_srl (word amount : Int32) :
    ∃ result, scalar .srl word amount = .ok result ∧
      Word.pattern result = Word.pattern word / 2 ^ shiftAmount amount := by
  refine ⟨_, rfl, ?_⟩
  rw [Word.pattern_ofBitVec, ← Word.toNat_toBitVec, BitVec.toNat_ushiftRight,
    Nat.shiftRight_eq_div_pow]
  push_cast
  rfl

/-- `SRA` divides by a power of two, toward the lesser integer. -/
theorem exists_scalar_sra (word amount : Int32) :
    ∃ result, scalar .sra word amount = .ok result ∧
      result.toInt = Int.fdiv word.toInt (2 ^ shiftAmount amount) := by
  refine ⟨_, rfl, ?_⟩
  have positive : (0 : Int) ≤ 2 ^ shiftAmount amount := by positivity
  rw [Int32.toInt_ofBitVec, BitVec.toInt_sshiftRight, Int.shiftRight_eq_div_pow,
    Int.fdiv_eq_ediv_of_nonneg _ positive, Int32.toInt_toBitVec]
  push_cast
  rfl

/-! ## Shifts that belong together -/

/-- What `SLA` moves to the left without an overflow `SRA` moves back. -/
theorem sra_of_sla {result : Int32} (moved : scalar .sla word amount = .ok result) :
    scalar .sra result amount = .ok word := by
  have product := scalar_sla_eq_ok_iff.mp moved
  obtain ⟨back, isBack, quotient⟩ := exists_scalar_sra result amount
  have nonzero : (2 : Int) ^ shiftAmount amount ≠ 0 := by positivity
  have same : back.toInt = word.toInt := by
    rw [quotient, product, Int.mul_fdiv_cancel _ nonzero]
  rw [isBack, Int32.toInt_inj.mp same]

/-- Where `SLA` does not overflow, `SLL` gives the same. -/
theorem sll_of_sla {result : Int32} (moved : scalar .sla word amount = .ok result) :
    scalar .sll word amount = .ok result := by
  have product := scalar_sla_eq_ok_iff.mp moved
  obtain ⟨logical, isLogical, bits⟩ := exists_scalar_sll word amount
  have same : Word.pattern logical = Word.pattern result := by
    rw [bits, Word.pattern, Word.pattern, product]
    exact (Int.mod_modEq word.toInt (2 ^ 32)).mul_right _
  rw [isLogical, Word.eq_of_pattern_eq same]

/-! ## Shifts in registers -/

/-- The bits of a register after they were moved.  A machine does not define what happens when
they are moved by as many places as there are, or by more. -/
def moved? {width : Nat} (move : BitVec width → Nat → BitVec width) (bits : BitVec width)
    (places : Nat) : Option (BitVec width) :=
  if places < width then some (move bits places) else none

/-- The operator is a shift. -/
def isShift : BinaryOperator → Bool
  | .sla | .sll | .srl | .sra => true
  | _ => false

/-- The shifts as a machine carries them out: `SLA` in a register of 128 bits, the logical shifts
with nothing left where the machine does not define them, and `SRA` by at most 31 places. -/
def machineShift (operator : BinaryOperator) (word amount : Int32) :
    Option (Except Problem Int32) :=
  let places := (amount.toBitVec &&& 63#32).toNat
  match operator with
  | .sla =>
      (moved? (· <<< ·) (word.toBitVec.signExtend 128) places).map fun bits => exact bits.toInt
  | .sll => some (.ok (.ofBitVec ((moved? (· <<< ·) word.toBitVec places).getD 0)))
  | .srl => some (.ok (.ofBitVec ((moved? (· >>> ·) word.toBitVec places).getD 0)))
  | .sra =>
      (moved? BitVec.sshiftRight word.toBitVec (min places 31)).map fun bits => .ok (.ofBitVec bits)
  | _ => none

theorem toNat_masked (amount : Int32) :
    (amount.toBitVec &&& 63#32).toNat = shiftAmount amount := by
  rw [BitVec.toNat_and]
  exact Nat.and_two_pow_sub_one_eq_mod _ 6

theorem getD_moved?_left (bits : BitVec 32) (places : Nat) :
    (moved? (· <<< ·) bits places).getD 0 = bits <<< places := by
  unfold moved?
  split
  next => rfl
  next wide => exact (BitVec.shiftLeft_eq_zero (Nat.le_of_not_lt wide)).symm

theorem getD_moved?_right (bits : BitVec 32) (places : Nat) :
    (moved? (· >>> ·) bits places).getD 0 = bits >>> places := by
  unfold moved?
  split
  next => rfl
  next wide => exact (BitVec.ushiftRight_eq_zero (Nat.le_of_not_lt wide)).symm

/-- A register of 128 bits has room for a word that is moved to the left by up to 63 places. -/
theorem toInt_shiftLeft_signExtend (word : Int32) {places : Nat} (few : places < 64) :
    (word.toBitVec.signExtend 128 <<< places).toInt = word.toInt * 2 ^ places := by
  have extended : (word.toBitVec.signExtend 128).toInt = word.toInt := by
    rw [BitVec.toInt_signExtend_of_le (by decide), Int32.toInt_toBitVec]
  have factor : (2 : Int) ^ places ≤ 2 ^ 63 := pow_le_pow_right₀ (by decide) (Nat.le_of_lt_succ few)
  have positive : (0 : Int) < 2 ^ places := by positivity
  obtain ⟨least, greatest⟩ := Word.holds_toInt word
  -- The product stays within 95 bits, so that the register wraps nothing.
  have lower : -2 ^ 31 * 2 ^ 63 ≤ word.toInt * 2 ^ places := by
    nlinarith only [least, factor, positive]
  have upper : word.toInt * 2 ^ places < 2 ^ 31 * 2 ^ 63 := by
    nlinarith only [greatest, factor, positive]
  rw [BitVec.toInt_shiftLeft, Nat.shiftLeft_eq, Nat.cast_mul, ← Int.bmod_mul_bmod,
    ← BitVec.toInt_eq_toNat_bmod, extended]
  push_cast
  exact Int.bmod_eq_of_le (by omega) (by omega)

/-- Behind the last place there are only signs. -/
theorem sshiftRight_min (bits : BitVec 32) (places : Nat) :
    bits.sshiftRight (min places 31) = bits.sshiftRight places := by
  rcases Nat.le_total places 31 with few | many
  · rw [Nat.min_eq_left few]
  · -- From 31 places on every bit of the result is the sign.
    ext i inside
    have last : bits.msb = bits[31] := by
      rw [BitVec.msb_eq_getLsbD_last, BitVec.getLsbD_eq_getElem]
    rw [Nat.min_eq_right many, BitVec.getElem_sshiftRight, BitVec.getElem_sshiftRight]
    by_cases first : i = 0
    · subst first
      by_cases exactly : places = 31
      · simp [exactly]
      · simp [last, show ¬ places < 32 by omega]
    · simp [show ¬ 31 + i < 32 by omega, show ¬ places + i < 32 by omega]

/-- A machine can carry out every shift, and nothing is lost in its registers. -/
theorem machineShift_eq {operator : BinaryOperator} (isShift : operator.isShift = true)
    (word amount : Int32) :
    machineShift operator word amount = some (scalar operator word amount) := by
  have few := shiftAmount_lt amount
  unfold machineShift
  rw [toNat_masked]
  cases operator with
  | sla =>
      have roomy : moved? (· <<< ·) (word.toBitVec.signExtend 128) (shiftAmount amount) =
          some (word.toBitVec.signExtend 128 <<< shiftAmount amount) := if_pos (by omega)
      rw [scalar_sla, ← toInt_shiftLeft_signExtend word few]
      simp only [roomy, Option.map_some]
  | sll => simp only [getD_moved?_left, scalar]
  | srl => simp only [getD_moved?_right, scalar]
  | sra =>
      have roomy : moved? BitVec.sshiftRight word.toBitVec (min (shiftAmount amount) 31) =
          some (word.toBitVec.sshiftRight (min (shiftAmount amount) 31)) := if_pos (by omega)
      simp only [roomy, Option.map_some, sshiftRight_min, scalar]
  | _ => cases isShift

/-! ## All shifts -/

/-- The shifts are exact for all words and amounts.  The places are the low six bits of the amount.
`SLA` multiplies, or overflows when no word denotes the product; `SLL` and `SRL` multiply and divide
the bits; `SRA` divides toward the lesser integer.  So `SRA` undoes every `SLA` that does not
overflow, and `SLL` agrees with it.  A machine carries each of them out in its registers. -/
theorem shifts_exact (word amount : Int32) :
    let places := (amount.toInt % 64).toNat
    (∀ result, scalar .sla word amount = .ok result ↔ result.toInt = word.toInt * 2 ^ places) ∧
      (∀ problem, scalar .sla word amount = .error problem ↔
        ¬ Word.Holds (word.toInt * 2 ^ places) ∧ problem = .arithmeticOverflow) ∧
      (∃ result, scalar .sll word amount = .ok result ∧
        Word.pattern result = Word.pattern word * 2 ^ places % 2 ^ 32) ∧
      (∃ result, scalar .srl word amount = .ok result ∧
        Word.pattern result = Word.pattern word / 2 ^ places) ∧
      (∃ result, scalar .sra word amount = .ok result ∧
        result.toInt = Int.fdiv word.toInt (2 ^ places)) ∧
      (∀ result, scalar .sla word amount = .ok result →
        scalar .sra result amount = .ok word ∧ scalar .sll word amount = .ok result) ∧
      ∀ operator : BinaryOperator, operator.isShift →
        machineShift operator word amount = some (scalar operator word amount) := by
  intro places
  have isAmount : places = shiftAmount amount := (shiftAmount_eq amount).symm
  rw [isAmount]
  constructor
  · intro result
    exact scalar_sla_eq_ok_iff
  constructor
  · intro problem
    rw [scalar_sla, exact_eq_error_iff]
  constructor
  · exact exists_scalar_sll word amount
  constructor
  · exact exists_scalar_srl word amount
  constructor
  · exact exists_scalar_sra word amount
  constructor
  · intro result moved
    exact ⟨sra_of_sla moved, sll_of_sla moved⟩
  · intro operator isShift
    exact machineShift_eq isShift word amount

-- The low six bits of `-1` are 63, which is more places than a word has.
example : scalar .sra (-8) (-1) = .ok (-1) ∧ scalar .srl (-8) (-1) = .ok 0 := by decide

end BinaryOperator

end ConditionalAssembly
