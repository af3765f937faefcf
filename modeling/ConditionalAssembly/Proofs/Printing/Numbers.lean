import ConditionalAssembly.Proofs.Evaluation.Parentheses
import ConditionalAssembly.Proofs.Printing.Restoring
import ConditionalAssembly.Proofs.Token.Lexing

/-!
# Numbers written and read back

A run of digits is read as one constant, whether it begins with zeros or not,
as long as its number is a word.  The numeral of a negative word is a sign in
front of such a run, and is calculated by negating the constant.  The least
word has no numeral that is read back: the constant would be one greater than
the greatest word.
-/

namespace ConditionalAssembly

open Evaluation Grammar Text Token

/-! ## Reading digits -/

theorem Text.byteCount_of_digits {digits : List Char} (all : digits.all Char.isDigit) :
    byteCount digits = digits.length := by
  apply byteCount_of_all
  apply List.all_eq_true.mpr
  intro c isDigit
  rw [isNameChar, List.all_eq_true.mp all c isDigit, Bool.or_true]

/-- A run of digits is read as the constant of the number they denote, if that is a word. -/
theorem Expr.read_digits {digits : List Char} (nonempty : digits ≠ [])
    (all : digits.all Char.isDigit) (bounded : Decimal.value digits < 2147483648) :
    Expr.read (String.ofList digits) =
      .ok (.unresolved
        [.constant (.ofInt (Decimal.value digits)) (.columns 0 digits.length) none]
        (.columns 0 digits.length)) := by
  have held : Decimal.value digits ≤ maxInteger := by
    unfold maxInteger
    omega
  have listed := (lexes_digits 0 nonempty all held).listOf
  have read := read_of_derives listed (Fragment.integer rfl bounded).single
  rw [PlacedToken.range, ← byteCount_ofList, Nat.zero_add, byteCount_of_digits all] at read
  exact read

/-- Behind a minus sign it is read as the same constant. -/
theorem Expr.exists_read_minus_digits {digits : List Char} (nonempty : digits ≠ [])
    (all : digits.all Char.isDigit) (bounded : Decimal.value digits < 2147483648) :
    ∃ first second whole, Expr.read (String.ofList ('-' :: digits)) =
      .ok (.unresolved
        [.symbol "-" first none, .constant (.ofInt (Decimal.value digits)) second none] whole) := by
  have held : Decimal.value digits ≤ maxInteger := by
    unfold maxInteger
    omega
  have listed := (Lexes.mark '-' rfl (lexes_digits _ nonempty all held)).listOf
  have sign : Fragment [⟨.minus, 0, 0 + byteCount ['-']⟩]
      (.symbol "-" (.columns 0 (0 + byteCount ['-'])) none) .closed := .word rfl
  exact ⟨_, _, _, read_of_derives listed
    (.cons sign (fun _ _ takes => takes) (Fragment.integer rfl bounded).single)⟩

/-! ## Words and their numerals -/

/-- The least word is the only one whose number is no word without its sign. -/
theorem natAbs_toInt_lt {word : Int32} (notLeast : word ≠ Int32.minValue) :
    word.toInt.natAbs < 2147483648 := by
  have lower := word.le_toInt
  have upper := word.toInt_lt
  have above : word.toInt ≠ -2147483648 := by
    intro least
    exact notLeast (Int32.toInt_inj.mp least)
  omega

theorem Decimal.value_digits_lt {word : Int32} (notLeast : word ≠ Int32.minValue) :
    Decimal.value (Nat.toDigits 10 word.toInt.natAbs) < 2147483648 := by
  rw [Decimal.value_toDigits]
  exact natAbs_toInt_lt notLeast

theorem toInt_ofInt_natAbs {word : Int32} (notLeast : word ≠ Int32.minValue) :
    (Int32.ofInt word.toInt.natAbs).toInt = word.toInt.natAbs := by
  apply Word.toInt_ofInt_of_mem
  · exact Int.le_trans (by decide) (Int.natCast_nonneg _)
  · exact Int.lt_add_one_iff.mp (Int.ofNat_lt.mpr (natAbs_toInt_lt notLeast))

theorem Decimal.ofWord_of_neg {word : Int32} (negative : word.toInt < 0) :
    Decimal.ofWord word = String.ofList ('-' :: Nat.toDigits 10 word.toInt.natAbs) := by
  rw [Decimal.ofWord, Decimal.ofInt, if_pos negative, Decimal.ofNat]
  rw [← List.singleton_append, String.ofList_append]

theorem Decimal.ofWord_of_nonneg {word : Int32} (nonneg : 0 ≤ word.toInt) :
    Decimal.ofWord word = String.ofList (Nat.toDigits 10 word.toInt.natAbs) := by
  rw [Decimal.ofWord, Decimal.ofInt, if_neg (Int.not_lt.mpr nonneg), Decimal.ofNat]

/-- A source that is read as what restores a tree has the value that the tree has everywhere. -/
theorem Expr.Restores.calculateSource_eq {source : String} {fragments : List Expr} {range : Range}
    {tree : Expr} (restores : (Expr.unresolved fragments range).Restores tree)
    (read : Expr.read source = .ok (.unresolved fragments range)) {value : Value}
    (evaluated : ∀ store, tree.evaluate store = pure value) (context : Context) :
    context.calculateSource .arithmetic source = .ok (value, context) := by
  have alike := restores.alike context.store
  rw [evaluated] at alike
  have reported : ((Expr.unresolved fragments range).resolve .arithmetic >>=
      Expr.evaluate context.store) = pure value := by
    apply Reported.ext
    · exact alike.value
    · rw [Reported.diagnostics_bind, restores.quiet, List.nil_append]
      exact List.map_eq_nil_iff.mp alike.problems
  rw [context.calculateSource_of_read read, reported]
  simp [Context.record]

/-- Negating a constant gives the word that denotes the negated number. -/
theorem Expr.evaluate_minus_constant {constant word : Int32} (negated : word.toInt = -constant.toInt)
    (place range : Range) (store : Store) :
    (Expr.unary .minus (.constant constant place (some .arithmetic)) range .arithmetic
      .arithmetic).evaluate store = pure (.arithmetic word) := by
  have exact : BinaryOperator.exact (-constant.toInt) = .ok word :=
    BinaryOperator.exact_eq_ok_iff.mpr negated
  have applied : UnaryOperator.minus.apply (.arithmetic constant) = .ok (.arithmetic word) := by
    rw [UnaryOperator.apply, exact]
    rfl
  have operand : (Expr.constant constant place (some .arithmetic)).evaluate store =
      pure (.arithmetic constant) := rfl
  rw [evaluate, operand]
  change settle (some .arithmetic) range
    (pure (UnaryOperator.minus.apply (.arithmetic constant))) = _
  rw [applied]
  rfl

/-- The numeral of a negative word other than the least is calculated by negating a constant. -/
theorem Context.calculateSource_ofWord_of_neg {word : Int32} (notLeast : word ≠ Int32.minValue)
    (negative : word.toInt < 0) (context : Context) :
    context.calculateSource .arithmetic (Decimal.ofWord word) =
      .ok (.arithmetic word, context) := by
  obtain ⟨first, second, whole, read⟩ := Expr.exists_read_minus_digits Nat.toDigits_ne_nil
    (Decimal.all_isDigit_toDigits word.toInt.natAbs) (Decimal.value_digits_lt notLeast)
  rw [Decimal.value_toDigits] at read
  have numeric : UnaryOperator.minus.isNumeric := rfl
  have spelled : (Expr.symbol "-" first none).word? = some UnaryOperator.minus.text := rfl
  have restores := (Expr.Restores.constant (.ofInt word.toInt.natAbs) second second).unary
    numeric spelled whole whole
  have negated : word.toInt = -(Int32.ofInt word.toInt.natAbs).toInt := by
    rw [toInt_ofInt_natAbs notLeast, Int.ofNat_natAbs_of_nonpos (Int.le_of_lt negative),
      Int.neg_neg]
  rw [Decimal.ofWord_of_neg negative]
  exact restores.calculateSource_eq read (Expr.evaluate_minus_constant negated _ _) context

/-- The numeral of a word that is not negative is a constant. -/
theorem Context.calculateSource_ofWord_of_nonneg {word : Int32} (nonneg : 0 ≤ word.toInt)
    (context : Context) :
    context.calculateSource .arithmetic (Decimal.ofWord word) =
      .ok (.arithmetic word, context) := by
  have notLeast : word ≠ Int32.minValue := by
    rintro rfl
    exact absurd nonneg (by decide)
  have read := Expr.read_digits Nat.toDigits_ne_nil
    (Decimal.all_isDigit_toDigits word.toInt.natAbs) (Decimal.value_digits_lt notLeast)
  rw [Decimal.value_toDigits, Int.natAbs_of_nonneg nonneg, Int32.ofInt_toInt] at read
  have restores (range whole : Range) :=
    (Expr.Restores.constant word range range).list whole
  rw [Decimal.ofWord_of_nonneg nonneg]
  exact (restores _ _).calculateSource_eq read (fun _ => rfl) context

/-- The sign operator writes every word as its numeral.  The numeral of a word is calculated to the
word in every context, and nothing is reported, but for the least word, whose digits are refused.
Digits are read as a constant, leading zeros or not, when their number is a word. -/
theorem numeral_reads_back :
    (∀ (word : Int32) (context : Context),
      UnaryOperator.signed.apply (.arithmetic word) = .ok (.character (Decimal.ofWord word)) ∧
        context.calculateSource .arithmetic (Decimal.ofWord word) =
          if word = Int32.minValue then .error ⟨.literalTooLarge, 2⟩
          else .ok (.arithmetic word, context)) ∧
      ∀ digits : List Char, digits ≠ [] → digits.all Char.isDigit →
        Decimal.value digits ≤ 2147483647 →
        Expr.read (String.ofList digits) =
          .ok (.unresolved
            [.constant (.ofInt (Decimal.value digits)) (.columns 0 digits.length) none]
            (.columns 0 digits.length)) := by
  constructor
  · intro word context
    refine ⟨rfl, ?_⟩
    split
    next least =>
      subst least
      cbv
    next notLeast =>
      rcases Int.lt_or_le word.toInt 0 with negative | nonneg
      · exact context.calculateSource_ofWord_of_neg notLeast negative
      · exact context.calculateSource_ofWord_of_nonneg nonneg
  · intro digits nonempty all bounded
    exact Expr.read_digits nonempty all (Nat.lt_succ_of_le bounded)

/-- The text `007` is read as the constant seven. -/
theorem numeral_reads_back_padded :
    "007".toList ≠ [] ∧ "007".toList.all Char.isDigit ∧
      Expr.read "007" =
        .ok (.unresolved [.constant 7 (.columns 0 3) none] (.columns 0 3)) := by
  refine ⟨by decide, by decide, ?_⟩
  exact numeral_reads_back.2 ['0', '0', '7'] (by decide) (by decide) (by decide)

/-- The numeral of the least word is not read back: the digits behind its sign are too large for a
constant. -/
theorem numeral_least_refused :
    UnaryOperator.signed.apply (.arithmetic Int32.minValue) = .ok (.character "-2147483648") ∧
      Context.calculateSource {} .arithmetic "-2147483648" = .error ⟨.literalTooLarge, 2⟩ ∧
      Context.calculateSource {} .arithmetic "-2147483648" ≠
        .ok (.arithmetic Int32.minValue, {}) := by
  have written : UnaryOperator.signed.apply (.arithmetic Int32.minValue) =
      .ok (.character "-2147483648") := by cbv
  have refused : Context.calculateSource {} .arithmetic "-2147483648" =
      .error ⟨.literalTooLarge, 2⟩ := by cbv
  refine ⟨written, refused, fun answered => ?_⟩
  cases refused.symm.trans answered

end ConditionalAssembly
