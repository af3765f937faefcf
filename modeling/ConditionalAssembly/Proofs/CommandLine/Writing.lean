import Mathlib
import ConditionalAssembly.CommandLine.Assignment
import ConditionalAssembly.Proofs.Concatenation.Quotation
import ConditionalAssembly.Proofs.Token.Words

/-!
# Assignments as they are written

A variable, perhaps with an index between parentheses, stands in front of an
equals sign and a value behind it.  Words are written as numerals, texts between
quotes with every quote doubled.  The target is made of a few characters only,
none of which is an equals sign, so the value may hold any characters at all.
-/

namespace ConditionalAssembly

/-! ## Numerals -/

namespace Decimal

/-- The characters a numeral is made of. -/
def isNumeralChar (c : Char) : Bool :=
  c.isDigit || c == '-'

theorem toNat?_toDigits (n : Nat) : toNat? (Nat.toDigits 10 n) = some n := by
  rw [toNat?, if_pos ⟨Nat.toDigits_ne_nil, all_isDigit_toDigits n⟩, value_toDigits]

theorem toList_ofInt_neg {n : Int} (negative : n < 0) :
    (ofInt n).toList = '-' :: Nat.toDigits 10 n.natAbs := by
  rw [ofInt, if_pos negative, String.toList_append]
  exact congrArg ('-' :: ·) String.toList_ofList

theorem toList_ofInt_nonneg {n : Int} (nonneg : ¬ n < 0) :
    (ofInt n).toList = Nat.toDigits 10 n.natAbs := by
  rw [ofInt, if_neg nonneg, ofNat, String.toList_ofList]

/-- A run of digits has no sign. -/
theorem toInt?_of_all {digits : List Char} (all : digits.all Char.isDigit) :
    toInt? digits = (toNat? digits).map fun n => (n : Int) := by
  cases digits with
  | nil => rfl
  | cons c cs =>
      rw [List.all_cons, Bool.and_eq_true] at all
      rw [toInt?]
      · rintro digits ⟨⟩
        exact absurd all.1 (by decide)
      · rintro digits ⟨⟩
        exact absurd all.1 (by decide)

/-- The numeral of an integer denotes it. -/
theorem toInt?_ofInt (n : Int) : toInt? (ofInt n).toList = some n := by
  by_cases negative : n < 0
  · have absolute : -(n.natAbs : Int) = n := by omega
    rw [toList_ofInt_neg negative, toInt?, toNat?_toDigits]
    exact congrArg some absolute
  · have absolute : (n.natAbs : Int) = n := by omega
    rw [toList_ofInt_nonneg negative, toInt?_of_all (all_isDigit_toDigits _), toNat?_toDigits]
    exact congrArg some absolute

/-- The numeral of a word denotes it. -/
theorem toWord?_ofWord (word : Int32) : toWord? (ofWord word) = some word := by
  rw [toWord?, ofWord, toInt?_ofInt, Option.bind_some]
  exact Word.ofInt?_eq_some_iff.mpr rfl

theorem all_ofWord (word : Int32) : (ofWord word).toList.all isNumeralChar := by
  have digits : (Nat.toDigits 10 word.toInt.natAbs).all isNumeralChar :=
    Text.all_of_imp (all_isDigit_toDigits _) fun c digit => by simp [isNumeralChar, digit]
  by_cases negative : word.toInt < 0
  · rw [ofWord, toList_ofInt_neg negative, List.all_cons, digits]
    rfl
  · rw [ofWord, toList_ofInt_nonneg negative, digits]

end Decimal

/-! ## Characters -/

namespace Text

theorem splitFirst?_eq_none {separator : Char} {cs : List Char} (absent : separator ∉ cs) :
    splitFirst? separator cs = none := by
  cases found : splitFirst? separator cs with
  | none => rfl
  | some parts =>
      obtain ⟨whole, _⟩ := splitFirst?_eq_some_iff.mp found
      exact absurd (by simp [whole]) absent

theorem trimChars_of_ends {cs : List Char} (first : cs.head?.any isBlank = false)
    (last : cs.getLast?.any isBlank = false) : trimChars cs = cs := by
  rw [← List.head?_reverse] at last
  have front : cs.dropWhile isBlank = cs := @dropWhile_of_ends isBlank [] cs rfl first
  have back : cs.reverse.dropWhile isBlank = cs.reverse :=
    @dropWhile_of_ends isBlank [] cs.reverse rfl last
  rw [trimChars, front, back, List.reverse_reverse]

end Text

namespace CommandLine

open Text Decimal

/-- The characters that the target of an assignment is made of. -/
def isTargetChar (c : Char) : Bool :=
  isNameChar c || isNumeralChar c || c == '&' || c == '(' || c == ')'

theorem isBlank_of_isTargetChar {c : Char} (isChar : isTargetChar c) : isBlank c = false := by
  have bounds : 0x21 ≤ c.toNat ∧ c.toNat ≤ 0x7E := by
    have same : c.val.toNat = c.toNat := rfl
    simp [isTargetChar, isNumeralChar, isNameChar, isNameStart, Char.isAlpha, Char.isUpper,
      Char.isLower, Char.isDigit, UInt32.le_iff_toNat_le, Char.ext_iff, UInt32.ext_iff] at isChar
    omega
  simp [isBlank, blankRanges]
  omega

theorem all_numeral (word : Int32) : (ofWord word).toList.all isTargetChar :=
  all_of_imp (all_ofWord word) fun c numeral => by simp [isTargetChar, numeral]

/-- Nothing is trimmed from a target or a numeral. -/
theorem trimChars_of_all {cs : List Char} (all : cs.all isTargetChar) : trimChars cs = cs := by
  have noBlank (c : Char) (isChar : c ∈ cs) : isBlank c = false :=
    isBlank_of_isTargetChar (List.all_eq_true.mp all c isChar)
  apply trimChars_of_ends
  · cases cs with
    | nil => rfl
    | cons c cs => exact noBlank c (List.mem_cons_self ..)
  · cases last : cs.getLast? with
    | none => rfl
    | some c => exact noBlank c (List.mem_of_getLast? last)

/-! ## Values -/

/-- A text with every quote doubled. -/
def doubleQuotes : List Char → List Char
  | [] => []
  | c :: cs => if c = '\'' then '\'' :: '\'' :: doubleQuotes cs else c :: doubleQuotes cs

/-- The argument is a way to write the value. -/
inductive Writes : String → Value → Prop where
  | word (word : Int32) : Writes (ofWord word) (.arithmetic word)
  | text (text : String) : Writes (quotation (doubleQuotes text.toList)) (.character text)

theorem singleQuotes_doubleQuotes (cs : List Char) : singleQuotes (doubleQuotes cs) = cs := by
  induction cs with
  | nil => rfl
  | cons c cs ih =>
      by_cases quote : c = '\''
      · subst quote
        rw [doubleQuotes, if_pos rfl, singleQuotes, ih]
      · rw [doubleQuotes, if_neg quote, singleQuotes, ih]
        rintro cs rfl
        exact absurd rfl quote

/-- Between quotes stands what is written there. -/
theorem betweenQuotes?_quotation (body : List Char) :
    betweenQuotes? (quotation body).toList = some body := by
  rw [quotation, String.toList_ofList, betweenQuotes?, List.getLast?_concat, if_pos rfl,
    List.dropLast_concat]

theorem betweenQuotes?_ofWord (word : Int32) : betweenQuotes? (ofWord word).toList = none := by
  have all := all_ofWord word
  unfold betweenQuotes?
  split
  next cs numeral =>
    rw [numeral, List.all_cons] at all
    exact nomatch all
  next => rfl

/-- A written value denotes the value. -/
theorem valueOf_of_writes {text : String} {value : Value} (writes : Writes text value) :
    valueOf text = value := by
  cases writes with
  | word word =>
      rw [valueOf, trim, trimChars_of_all (all_numeral word), String.ofList_toList]
      simp only [betweenQuotes?_ofWord, toWord?_ofWord]
  | text text =>
      have whole : trim (quotation (doubleQuotes text.toList)) =
          quotation (doubleQuotes text.toList) := by
        rw [trim, trimChars_of_ends, String.ofList_toList]
        · rw [quotation, String.toList_ofList]
          rfl
        · rw [quotation, String.toList_ofList, ← List.cons_append, List.getLast?_concat]
          rfl
      rw [valueOf, whole]
      simp only [betweenQuotes?_quotation, singleQuotes_doubleQuotes, String.ofList_toList]

/-! ## Assignments -/

/-- A variable by its name, or one element of it. -/
def subscripted (name : String) : Option Int32 → String
  | none => name
  | some index => name ++ "(" ++ ofWord index ++ ")"

theorem all_subscripted {name : String} (valid : isName name.toList) (index : Option Int32) :
    (subscripted name index).toList.all isTargetChar := by
  have letters : name.toList.all isTargetChar :=
    all_of_imp (all_of_isName valid) fun c isChar => by simp [isTargetChar, isChar]
  cases index with
  | none => exact letters
  | some index =>
      have marks : isTargetChar '(' && isTargetChar ')' := by decide
      simpa [subscripted, letters, all_numeral] using marks

/-- No ampersand stands in front of the name. -/
theorem head?_subscripted {name : String} (valid : isName name.toList) (index : Option Int32) :
    (subscripted name index).toList.head?.any (· == '&') = false := by
  cases spelling : name.toList with
  | nil =>
      rw [spelling] at valid
      cases valid
  | cons c cs =>
      rw [spelling] at valid
      have start := isNameStart_of_isName valid
      have noAmpersand : (c == '&') = false := by
        rw [beq_eq_false_iff_ne]
        rintro rfl
        exact absurd start (by decide)
      cases index <;> simp [subscripted, spelling, noAmpersand]

/-- Of a text without closing parentheses only those behind it are dropped. -/
theorem dropClosing_append {index closing : List Char} (absent : ')' ∉ index)
    (all : closing.all (· == ')')) : dropClosing (index ++ closing) = index := by
  have marks : closing.reverse.all (· == ')') := by rwa [List.all_reverse]
  have ends : index.reverse.head?.any (· == ')') = false := by
    cases last : index.reverse.head? with
    | none => rfl
    | some c =>
        rw [List.head?_reverse] at last
        have different : c ≠ ')' := ne_of_mem_of_not_mem (List.mem_of_getLast? last) absent
        simpa using different
  rw [dropClosing, List.reverse_append, dropWhile_of_ends marks ends, List.reverse_reverse]

/-- Of an index only the parenthesis behind it is dropped. -/
theorem dropClosing_ofWord (index : Int32) :
    dropClosing ((ofWord index).toList ++ [')']) = (ofWord index).toList :=
  dropClosing_append (not_mem_of_all (all_ofWord index) (by decide)) rfl

/-- A written assignment is parsed to what it assigns, with ampersands in front or without. -/
theorem Assignment.parse_written {marks : List Char} (ampersands : marks.all (· == '&'))
    {name : String} (valid : isName name.toList) (index : Option Int32) {text : String}
    {value : Value} (writes : Writes text value) :
    Assignment.parse (String.ofList marks ++ subscripted name index ++ "=" ++ text) =
      .ok ⟨upper name, index, value⟩ := by
  have marked : marks.all isTargetChar :=
    all_of_imp ampersands fun c ampersand => by simp [isTargetChar, ampersand]
  have all : (marks ++ (subscripted name index).toList).all isTargetChar := by
    rw [List.all_append, marked, all_subscripted valid index, Bool.true_and]
  have split : splitFirst? '='
      (String.ofList marks ++ subscripted name index ++ "=" ++ text).toList =
        some (marks ++ (subscripted name index).toList, text.toList) := by
    apply splitFirst?_eq_some_iff.mpr
    exact ⟨by simp, not_mem_of_all all (by decide)⟩
  have bare : (marks ++ (subscripted name index).toList).dropWhile (· == '&') =
      (subscripted name index).toList :=
    dropWhile_of_ends ampersands (head?_subscripted valid index)
  have noParenthesis : '(' ∉ name.toList :=
    not_mem_of_all (all_of_isName valid) (by decide)
  unfold parse
  simp only [split, trimChars_of_all all, bare, String.ofList_toList, valueOf_of_writes writes]
  cases index with
  | none =>
      rw [subscripted, splitFirst?_eq_none noParenthesis, nameOf_toList]
  | some index =>
      have parts : splitFirst? '(' (subscripted name (some index)).toList =
          some (name.toList, (ofWord index).toList ++ [')']) := by
        apply splitFirst?_eq_some_iff.mpr
        exact ⟨by simp [subscripted], noParenthesis⟩
      rw [parts]
      simp only [dropClosing_ofWord, String.ofList_toList, toWord?_ofWord, nameOf_toList]

end CommandLine

end ConditionalAssembly
