/-!
# Words of 32 bits and their numerals

Arithmetic values are signed words of 32 bits.  Every operation is computed on
the integers first and then brought back to a word, either by a check that
refuses what does not fit or by clamping to the nearest word.  The check answers
with a word exactly when that word denotes the given integer.

Numbers are written in base ten without leading zeros.  Reading is laxer: it
takes any run of digits, and for a word one optional sign in front of it.
-/

namespace ConditionalAssembly.Word

/-- The word denoting an integer, when there is one. -/
def ofInt? (n : Int) : Option Int32 :=
  if Int32.minValue.toInt ≤ n ∧ n ≤ Int32.maxValue.toInt then some (Int32.ofInt n) else none

/-- The word nearest to an integer. -/
def clamp (n : Int) : Int32 :=
  if n < Int32.minValue.toInt then Int32.minValue
  else if Int32.maxValue.toInt < n then Int32.maxValue
  else Int32.ofInt n

/-- The word denoting a count, or the greatest word when the count exceeds it. -/
def ofCount (n : Nat) : Int32 :=
  clamp n

/-- The count a word denotes, when it is not negative. -/
def toCount? (w : Int32) : Option Nat :=
  if 0 ≤ w.toInt then some w.toInt.toNat else none

theorem toInt_ofInt_of_mem {n : Int} (lower : Int32.minValue.toInt ≤ n)
    (upper : n ≤ Int32.maxValue.toInt) : (Int32.ofInt n).toInt = n := by
  change -2147483648 ≤ n at lower
  change n ≤ 2147483647 at upper
  rw [Int32.toInt_ofInt]
  change n.bmod 4294967296 = n
  rw [Int.bmod_def]
  omega

theorem toInt_mem (w : Int32) :
    Int32.minValue.toInt ≤ w.toInt ∧ w.toInt ≤ Int32.maxValue.toInt := by
  change -2147483648 ≤ w.toInt ∧ w.toInt ≤ 2147483647
  have lower := w.le_toInt
  have upper := w.toInt_lt
  omega

/-- The check answers exactly with the word that denotes the integer. -/
theorem ofInt?_eq_some_iff {n : Int} {w : Int32} : ofInt? n = some w ↔ w.toInt = n := by
  unfold ofInt?
  constructor
  · intro found
    split at found
    next range =>
      cases found
      exact toInt_ofInt_of_mem range.1 range.2
    next => exact nomatch found
  · rintro rfl
    rw [if_pos (toInt_mem w), Int32.ofInt_toInt]

theorem toCount?_eq_some_iff {w : Int32} {n : Nat} : toCount? w = some n ↔ w.toInt = n := by
  unfold toCount?
  split
  next nonneg =>
    rw [Option.some.injEq]
    omega
  next negative =>
    exact ⟨(nomatch ·), fun denotes => by omega⟩

end ConditionalAssembly.Word

namespace ConditionalAssembly.Decimal

/-! ## Writing numerals -/

/-- The numeral of a natural number, without leading zeros. -/
def ofNat (n : Nat) : String :=
  String.ofList (Nat.toDigits 10 n)

/-- The numeral of an integer, with a minus sign when it is negative. -/
def ofInt (n : Int) : String :=
  if n < 0 then "-" ++ ofNat n.natAbs else ofNat n.natAbs

/-- The numeral of a word. -/
def ofWord (w : Int32) : String :=
  ofInt w.toInt

/-! ## Reading numerals -/

/-- The number a run of digits denotes. -/
def value (digits : List Char) : Nat :=
  Nat.ofDigitChars 10 digits 0

/-- The number a text denotes, when it consists of digits and is not empty. -/
def toNat? (digits : List Char) : Option Nat :=
  if digits ≠ [] ∧ digits.all Char.isDigit then some (value digits) else none

/-- The integer a text denotes: a run of digits after at most one sign. -/
def toInt? : List Char → Option Int
  | '-' :: digits => (toNat? digits).map fun n => -n
  | '+' :: digits => (toNat? digits).map fun n => n
  | digits => (toNat? digits).map fun n => n

/-- The word a text denotes, when it denotes an integer that fits. -/
def toWord? (text : String) : Option Int32 :=
  (toInt? text.toList).bind Word.ofInt?

theorem value_toDigits (n : Nat) : value (Nat.toDigits 10 n) = n :=
  Nat.ofDigitChars_toDigits (by decide) (by decide)

end ConditionalAssembly.Decimal
