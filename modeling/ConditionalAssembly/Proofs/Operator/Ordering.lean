import Mathlib
import ConditionalAssembly.Operator.Apply
import ConditionalAssembly.Proofs.Text.Bytes

/-!
# The order of values

Numbers are compared with numbers and texts with texts; other pairs of values
have no order.  Where there is one, the relational operators all read it off
the place of one value relative to the other, and so form one total order.

Texts are ordered by their bytes, first by how many they are.  A text with
fewer characters may have as many bytes or more, so it need not be the lower
one: only a text of ASCII characters is lower than all that are longer.
-/

namespace ConditionalAssembly

/-! ## Places -/

namespace Value

/-- The values are compared: both are numbers or both are texts. -/
def Comparable (left right : Value) : Prop :=
  left.domain = right.domain ∧ left.domain ≠ .binary

/-- The place of one value relative to another, when they are compared. -/
def place? : Value → Value → Option Ordering
  | .arithmetic left, .arithmetic right => some (compare left.toInt right.toInt)
  | .character left, .character right => some (Text.order left right)
  | _, _ => none

variable {first second third : Value}

theorem exists_place?_iff :
    (∃ order, first.place? second = some order) ↔ first.Comparable second := by
  cases first <;> cases second <;> simp [place?, Comparable, domain]

theorem place?_eq_none_iff : first.place? second = none ↔ ¬ first.Comparable second := by
  rw [← exists_place?_iff, Option.eq_none_iff_forall_ne_some, not_exists]

theorem place?_swap (first second : Value) :
    second.place? first = (first.place? second).map .swap := by
  cases first <;> cases second <;> simp [place?, Std.OrientedCmp.eq_swap.symm]

theorem place?_eq_iff (comparable : first.Comparable second) :
    first.place? second = some .eq ↔ first = second := by
  cases first <;> cases second <;>
    simp_all [place?, Comparable, domain, Text.order_eq_eq_iff, Int32.toInt_inj]

theorem place?_lt_trans (below : first.place? second = some .lt)
    (above : second.place? third = some .lt) : first.place? third = some .lt := by
  cases first <;> cases second <;> cases third <;>
    simp only [place?, Option.some.injEq, reduceCtorEq] at below above ⊢
  · exact Std.TransCmp.lt_trans below above
  · exact Std.TransCmp.lt_trans below above

/-- What is not above a value is not above any that is not below it. -/
theorem place?_isLE_trans {before after : Ordering} (below : first.place? second = some before)
    (above : second.place? third = some after) (le : before.isLE) (le' : after.isLE) :
    ∃ order, first.place? third = some order ∧ order.isLE := by
  cases first <;> cases second <;> cases third <;>
    simp only [place?, Option.some.injEq, reduceCtorEq] at below above ⊢
  · subst below above
    exact ⟨_, rfl, Std.TransCmp.isLE_trans le le'⟩
  · subst below above
    exact ⟨_, rfl, Std.TransCmp.isLE_trans le le'⟩

end Value

/-! ## Relational operators -/

namespace BinaryOperator

/-- The operator yields a truth value for two values. -/
def Tells (operator : BinaryOperator) (left right : Value) (truth : Bool) : Prop :=
  operator.apply left right = .ok (.binary truth)

instance (operator : BinaryOperator) (left right : Value) (truth : Bool) :
    Decidable (operator.Tells left right truth) :=
  inferInstanceAs (Decidable (_ = _))

variable {operator : BinaryOperator} {left right : Value}

/-- A relational operator looks at nothing but the place of the values. -/
theorem apply_of_isRelational (relational : operator.isRelational = true) (left right : Value) :
    operator.apply left right =
      match left.place? right with
      | some order => .binary <$> operator.holdsFor order
      | none => .error (.mismatch left right) := by
  have compares : operator.apply left right = operator.comparison left right := by
    cases operator with
    | equal | notEqual | less | lessEqual | greater | greaterEqual => rfl
    | _ => cases relational
  rw [compares]
  cases left <;> cases right <;> rfl

theorem tells_iff (relational : operator.isRelational = true) {truth : Bool} :
    operator.Tells left right truth ↔
      ∃ order, left.place? right = some order ∧ operator.holdsFor order = .ok truth := by
  rw [Tells, apply_of_isRelational relational]
  cases left.place? right with
  | none => simp
  | some order => cases said : operator.holdsFor order <;> simp [said, Functor.map, Except.map]

theorem tells_of_place {order : Ordering} (placed : left.place? right = some order)
    (operator : BinaryOperator) (relational : operator.isRelational = true) {truth : Bool} :
    operator.Tells left right truth ↔ operator.holdsFor order = .ok truth := by
  simp only [tells_iff relational, placed, Option.some.injEq, exists_eq_left']

/-- Of values that are not compared every relational operator reports what keeps it from comparing
them: that they are of different domains, or that they are no numbers. -/
theorem apply_of_not_comparable (relational : operator.isRelational = true)
    (apart : ¬ left.Comparable right) :
    operator.apply left right =
      .error (if left.domain = right.domain then .typeMismatch .arithmetic .binary
        else .typeMismatch left.domain right.domain) := by
  rw [apply_of_isRelational relational, Value.place?_eq_none_iff.mpr apart]
  dsimp only
  rw [Problem.mismatch]
  by_cases same : left.domain = right.domain
  · have truths : left.domain = .binary := by
      by_contra other
      exact apart ⟨same, other⟩
    rw [if_pos same, if_pos same, truths]
  · rw [if_neg same, if_neg same]

/-- Of two values that are compared the first is lower, the same or higher. -/
theorem tells_exactly_one (comparable : left.Comparable right) :
    less.Tells left right true ∧ equal.Tells left right false ∧ greater.Tells left right false ∨
      less.Tells left right false ∧ equal.Tells left right true ∧ greater.Tells left right false ∨
      less.Tells left right false ∧ equal.Tells left right false ∧
        greater.Tells left right true := by
  obtain ⟨order, placed⟩ := Value.exists_place?_iff.mpr comparable
  have tells := @tells_of_place left right order placed
  simp only [tells less rfl, tells equal rfl, tells greater rfl, holdsFor]
  cases order <;> decide

/-- `EQ` holds of a value and itself only. -/
theorem tells_equal_iff (comparable : left.Comparable right) :
    equal.Tells left right true ↔ left = right := by
  obtain ⟨order, placed⟩ := Value.exists_place?_iff.mpr comparable
  rw [← Value.place?_eq_iff comparable, tells_of_place placed _ rfl, placed]
  cases order <;> simp [holdsFor]

/-- `LE`, `GE` and `NE` tell the contrary of `GT`, `LT` and `EQ`. -/
theorem tells_contrary (comparable : left.Comparable right) (truth : Bool) :
    (lessEqual.Tells left right truth ↔ greater.Tells left right !truth) ∧
      (greaterEqual.Tells left right truth ↔ less.Tells left right !truth) ∧
      (notEqual.Tells left right truth ↔ equal.Tells left right !truth) := by
  obtain ⟨order, placed⟩ := Value.exists_place?_iff.mpr comparable
  have tells := @tells_of_place left right order placed
  simp only [tells less rfl, tells lessEqual rfl, tells greater rfl, tells greaterEqual rfl,
    tells equal rfl, tells notEqual rfl, holdsFor]
  cases order <;> cases truth <;> decide

/-- `GT` and `GE` tell of exchanged values what `LT` and `LE` tell. -/
theorem tells_exchanged (comparable : left.Comparable right) (truth : Bool) :
    (less.Tells left right truth ↔ greater.Tells right left truth) ∧
      (lessEqual.Tells left right truth ↔ greaterEqual.Tells right left truth) := by
  obtain ⟨order, placed⟩ := Value.exists_place?_iff.mpr comparable
  have exchanged : right.place? left = some order.swap := by
    rw [Value.place?_swap left right, placed, Option.map_some]
  have tells := @tells_of_place left right order placed
  have tellsExchanged := @tells_of_place right left order.swap exchanged
  simp only [tells less rfl, tells lessEqual rfl, tellsExchanged greater rfl,
    tellsExchanged greaterEqual rfl, holdsFor]
  cases order <;> cases truth <;> decide

theorem tells_less_iff : less.Tells left right true ↔ left.place? right = some .lt := by
  rw [tells_iff rfl]
  simp only [holdsFor, Except.ok.injEq, Ordering.isLT_iff_eq_lt, exists_eq_right]

theorem tells_lessEqual_iff :
    lessEqual.Tells left right true ↔ ∃ order, left.place? right = some order ∧ order.isLE := by
  rw [tells_iff rfl]
  simp only [holdsFor, Except.ok.injEq]

/-- `LT` is transitive. -/
theorem tells_less_trans {first second third : Value} (below : less.Tells first second true)
    (above : less.Tells second third true) : less.Tells first third true := by
  rw [tells_less_iff] at below above ⊢
  exact Value.place?_lt_trans below above

/-- `LE` is transitive. -/
theorem tells_lessEqual_trans {first second third : Value}
    (below : lessEqual.Tells first second true) (above : lessEqual.Tells second third true) :
    lessEqual.Tells first third true := by
  rw [tells_lessEqual_iff] at below above ⊢
  obtain ⟨before, isBefore, le⟩ := below
  obtain ⟨after, isAfter, le'⟩ := above
  exact Value.place?_isLE_trans isBefore isAfter le le'

/-- The relational operators form one total order on the numbers and on the texts: of two values
the first is lower, the same or higher, and the operators `LE`, `GE` and `NE` tell the contrary of
`GT`, `LT` and `EQ`.  Other values have no order, and every operator reports it. -/
theorem relational_total_order :
    (∀ left right : Value, left.Comparable right →
      (less.Tells left right true ∧ equal.Tells left right false ∧ greater.Tells left right false ∨
        less.Tells left right false ∧ equal.Tells left right true ∧ greater.Tells left right false ∨
        less.Tells left right false ∧ equal.Tells left right false ∧
          greater.Tells left right true) ∧
      (equal.Tells left right true ↔ left = right) ∧
      ∀ truth,
        (lessEqual.Tells left right truth ↔ greater.Tells left right !truth) ∧
        (greaterEqual.Tells left right truth ↔ less.Tells left right !truth) ∧
        (notEqual.Tells left right truth ↔ equal.Tells left right !truth) ∧
        (less.Tells left right truth ↔ greater.Tells right left truth) ∧
        (lessEqual.Tells left right truth ↔ greaterEqual.Tells right left truth)) ∧
    (∀ first second third : Value,
      (less.Tells first second true → less.Tells second third true → less.Tells first third true) ∧
      (lessEqual.Tells first second true → lessEqual.Tells second third true →
        lessEqual.Tells first third true)) ∧
    ∀ left right : Value, ¬ left.Comparable right → ∀ operator : BinaryOperator,
      operator.isRelational →
        operator.apply left right =
          .error (if left.domain = right.domain then .typeMismatch .arithmetic .binary
            else .typeMismatch left.domain right.domain) := by
  refine ⟨?_, ?_, ?_⟩
  · intro left right comparable
    refine ⟨tells_exactly_one comparable, tells_equal_iff comparable, fun truth => ?_⟩
    obtain ⟨notGreater, notLess, notEqual⟩ := tells_contrary comparable truth
    exact ⟨notGreater, notLess, notEqual, tells_exchanged comparable truth⟩
  · intro first second third
    exact ⟨tells_less_trans, tells_lessEqual_trans⟩
  · intro left right apart operator relational
    exact apply_of_not_comparable relational apart

end BinaryOperator

/-! ## Texts that are longer -/

namespace Text

/-- The first text is lower than the second, and every relational operator tells so. -/
def Precedes (lower higher : String) : Prop :=
  order lower higher = .lt ∧ ∀ operator : BinaryOperator, operator.isRelational →
    operator.Tells (.character lower) (.character higher)
      (operator ∈ [.less, .lessEqual, .notEqual])

theorem precedes_iff {lower higher : String} :
    Precedes lower higher ↔ order lower higher = .lt := by
  refine ⟨And.left, fun below => ⟨below, fun operator relational => ?_⟩⟩
  have placed : (Value.character lower).place? (.character higher) = some .lt :=
    congrArg some below
  rw [BinaryOperator.tells_of_place placed operator relational]
  cases operator with
  | equal | notEqual | less | lessEqual | greater | greaterEqual => rfl
  | _ => cases relational

/-- No bytes are lower than as many zeros. -/
theorem not_lt_zeros : ∀ bytes : List UInt8, ¬ bytes < List.replicate bytes.length 0
  | [] => List.not_lt_nil _
  | byte :: bytes => by
      rw [List.length_cons, List.replicate_succ, List.cons_lt_cons_iff, not_or]
      refine ⟨UInt8.not_lt_zero, fun both => ?_⟩
      exact not_lt_zeros bytes both.2

theorem bytes_nulls (count : Nat) :
    bytes (List.replicate count '\x00') = List.replicate count 0 := by
  induction count with
  | zero => rfl
  | succ count ih =>
      rw [List.replicate_succ, bytes_cons, ih]
      rfl

/-- Not every text that is longer than one with a character beyond ASCII is higher: as many null
characters as the other has bytes are not. -/
theorem not_precedes_nulls {text : String} (beyond : ¬ ∀ c ∈ text.toList, c.toNat < 128) :
    ∃ longer : String, text.length < longer.length ∧ ¬ Precedes text longer := by
  have size := length_le_byteCount text.toList
  have notSame := byteCount_eq_length_iff.not.mpr beyond
  refine ⟨String.ofList (List.replicate (byteCount text.toList) '\x00'), ?_, ?_⟩
  · rw [String.length_ofList, List.length_replicate, ← String.length_toList]
    omega
  · rw [precedes_iff, order_eq_lt_iff, String.toList_ofList, bytes_nulls, List.length_replicate,
      ← length_bytes]
    simp only [lt_irrefl, false_or, true_and]
    exact not_lt_zeros _

/-- A text of ASCII characters is lower than all that are longer. -/
theorem precedes_longer {text longer : String} (ascii : ∀ c ∈ text.toList, c.toNat < 128)
    (more : text.length < longer.length) : Precedes text longer := by
  have size := byteCount_eq_length_iff.mpr ascii
  have longerSize := length_le_byteCount longer.toList
  rw [precedes_iff, order_eq_lt_iff, length_bytes, length_bytes]
  rw [String.length_toList] at size longerSize
  omega

/-- Exactly the texts of ASCII characters are lower than all that are longer. -/
theorem forall_longer_precedes_iff (text : String) :
    (∀ longer : String, text.length < longer.length → Precedes text longer) ↔
      ∀ c ∈ text.toList, c.toNat < 128 := by
  constructor
  · intro higher
    by_contra beyond
    obtain ⟨longer, more, notHigher⟩ := not_precedes_nulls beyond
    exact notHigher (higher longer more)
  · intro ascii longer more
    exact precedes_longer ascii more

/-- `BYTE` gives the character of a code. -/
theorem exists_apply_byte {code : Int32} (least : 0 ≤ code.toInt) (greatest : code.toInt ≤ 255) :
    ∃ c : Char, UnaryOperator.byte.apply (.arithmetic code) = .ok (.character c.toString) ∧
      (c.toNat : Int) = code.toInt := by
  refine ⟨Char.ofNat code.toInt.toNat, if_pos ⟨least, greatest⟩, ?_⟩
  have valid : code.toInt.toNat.isValidChar := .inl (by omega)
  rw [Char.toNat_ofNat, if_pos valid]
  omega

/-- A text is lower than another exactly when it has fewer bytes, or as many and lower ones.  So it
is lower than all that have more characters exactly when its own are those of ASCII, and a
character that `BYTE` gives is lower than all texts of several characters exactly when its code is
below 128. -/
theorem precedes_iff_fewer_bytes (lower higher : String) :
    (Precedes lower higher ↔
      (bytes lower.toList).length < (bytes higher.toList).length ∨
        (bytes lower.toList).length = (bytes higher.toList).length ∧
          bytes lower.toList < bytes higher.toList) ∧
    ((∀ longer : String, lower.length < longer.length → Precedes lower longer) ↔
      ∀ c ∈ lower.toList, c.toNat < 128) ∧
    ∀ code : Int32, 0 ≤ code.toInt → code.toInt ≤ 255 →
      ∃ text : String, UnaryOperator.byte.apply (.arithmetic code) = .ok (.character text) ∧
        text.length = 1 ∧
        ((∀ longer : String, text.length < longer.length → Precedes text longer) ↔
          code.toInt < 128) := by
  refine ⟨?_, forall_longer_precedes_iff lower, ?_⟩
  · rw [precedes_iff, order_eq_lt_iff]
  · intro code least greatest
    obtain ⟨c, given, isCode⟩ := exists_apply_byte least greatest
    refine ⟨c.toString, given, by simp, ?_⟩
    rw [forall_longer_precedes_iff]
    simp only [Char.toString_eq_singleton, String.toList_singleton, List.forall_mem_singleton]
    omega

/-- The character of code 128 takes two bytes, and the first of them is above any letter. -/
theorem byte128_above_letters :
    UnaryOperator.byte.apply (.arithmetic 128) = .ok (.character "\u0080") ∧
      "\u0080".length < "AB".length ∧ order "\u0080" "AB" = .gt ∧
      BinaryOperator.less.Tells (.character "\u0080") (.character "AB") false ∧
      BinaryOperator.greater.Tells (.character "\u0080") (.character "AB") true := by
  decide

end Text

end ConditionalAssembly
