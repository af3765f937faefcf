import ConditionalAssembly.Proofs.Concatenation.Quotation
import ConditionalAssembly.Proofs.Token.Words

/-!
# The parts of a created name

The text of a created name falls into words, numbers, periods and variables.
Each of them goes as far as its characters do, so the text has only one such
cut, and the tokens of the text are those of its parts.
-/

namespace ConditionalAssembly

open Text

/-- A part of the text of a created name. -/
inductive NamePart where
  | word (letters : List Char)
  | number (digits : List Char)
  | period
  | reference (name : List Char)

namespace NamePart

/-- A part as it stands in the text. -/
def spelling : NamePart → List Char
  | .word letters => letters
  | .number digits => digits
  | .period => ['.']
  | .reference name => '&' :: name

/-- The token of a part. -/
def token : NamePart → Token
  | .word letters => .identifier (nameOf letters)
  | .number digits => .integer (Decimal.value digits)
  | .period => .dot
  | .reference name => .variableName (nameOf name)

/-- A part is well-formed and goes as far as it can in front of the rest of a text. -/
def Fits (rest : List Char) : NamePart → Prop
  | .word letters => isName letters ∧ rest.head?.any isNameChar = false
  | .number digits =>
      digits ≠ [] ∧ digits.all Char.isDigit ∧ Decimal.value digits ≤ Token.maxInteger ∧
        rest.head?.any Char.isDigit = false
  | .period => True
  | .reference name => isName name ∧ rest.head?.any isNameChar = false

end NamePart

/-- The text of some parts. -/
def spelled (parts : List NamePart) : List Char :=
  parts.flatMap NamePart.spelling

/-- Each part fits in front of the others. -/
def IsCut : List NamePart → Prop
  | [] => True
  | part :: rest => part.Fits (spelled rest) ∧ IsCut rest

/-- The text may stand in a created name: it is made of names, digits, periods and ampersands. -/
def IsPlainText (text : List Char) : Prop :=
  ∀ c ∈ text, isNameChar c ∨ c = '.' ∨ c = '&'

/-! ## The token of a part -/

/-- The token of a part is what is scanned at its place. -/
theorem NamePart.scan_spelling {part : NamePart} {rest : List Char} (fits : part.Fits rest)
    (noQuote : rest.head? ≠ some '\'') :
    ∃ c cs, part.spelling ++ rest = c :: cs ∧
      Token.scan c cs = .token part.token part.spelling rest := by
  cases part with
  | word letters =>
      obtain ⟨valid, ends⟩ := fits
      cases letters with
      | nil => exact nomatch valid
      | cons c cs =>
          have start : isNameStart c := isNameStart_of_isName valid
          have noQuoteBehind : (cs ++ rest).head? ≠ some '\'' := by
            cases cs with
            | nil => exact noQuote
            | cons d ds =>
                rintro ⟨⟩
                exact absurd (all_of_isName valid) (by simp [isNameChar, isNameStart])
          refine ⟨c, cs ++ rest, rfl, ?_⟩
          rw [Token.scan_of_isNameStart start, Token.scanWord_of_noQuote noQuoteBehind,
            ← List.cons_append, Token.scanName_append _ _ valid ends]
          rfl
  | number digits =>
      obtain ⟨nonempty, all, bounded, ends⟩ := fits
      cases digits with
      | nil => exact absurd rfl nonempty
      | cons c cs =>
          refine ⟨c, cs ++ rest, rfl, ?_⟩
          have digit : c.isDigit := List.all_eq_true.mp all c (by simp)
          rw [Token.scan_of_isDigit digit, Token.scanNumber, ← List.cons_append,
            takeWhile_of_ends all ends, dropWhile_of_ends all ends]
          simp [bounded, token, spelling]
  | period => exact ⟨'.', rest, rfl, rfl⟩
  | reference name =>
      obtain ⟨valid, ends⟩ := fits
      cases name with
      | nil => exact nomatch valid
      | cons c cs =>
          have start : isNameStart c := isNameStart_of_isName valid
          refine ⟨'&', c :: cs ++ rest, rfl, ?_⟩
          have scanned : Token.scan '&' (c :: cs ++ rest) = Token.scanVariable (c :: cs ++ rest) :=
            rfl
          rw [scanned, List.cons_append, Token.scanVariable_of_isNameStart start,
            ← List.cons_append, Token.scanName_append _ _ valid ends]
          rfl

/-! ## The tokens of a text -/

/-- A part fits in front of a text that a parenthesis closes. -/
theorem NamePart.Fits.closed {part : NamePart} {rest : List Char} (fits : part.Fits rest) :
    part.Fits (rest ++ [')']) := by
  cases part with
  | word letters => exact ⟨fits.1, any_head?_closed (by decide) fits.2⟩
  | number digits =>
      obtain ⟨nonempty, all, bounded, ends⟩ := fits
      exact ⟨nonempty, all, bounded, any_head?_closed (by decide) ends⟩
  | period => trivial
  | reference name => exact ⟨fits.1, any_head?_closed (by decide) fits.2⟩

theorem IsPlainText.of_append {first second : List Char} (plain : IsPlainText (first ++ second)) :
    IsPlainText second :=
  fun c isChar => plain c (List.mem_append_right first isChar)

/-- There is no quote in front of the text of a created name. -/
theorem IsPlainText.head_ne_quote {text : List Char} (plain : IsPlainText text) :
    (text ++ [')']).head? ≠ some '\'' := by
  cases text with
  | nil => decide
  | cons c cs =>
      rintro ⟨⟩
      exact absurd (plain '\'' (by simp)) (by decide)

/-- The tokens of some parts, from an offset on. -/
def placed (offset : Nat) : List NamePart → List PlacedToken
  | [] => []
  | part :: rest =>
      ⟨part.token, offset, offset + byteCount part.spelling⟩ ::
        placed (offset + byteCount part.spelling) rest

/-- The tokens of the text of a created name are those of its parts. -/
theorem listFrom_spelled {parts : List NamePart} (cut : IsCut parts)
    (plain : IsPlainText (spelled parts)) (offset : Nat) :
    ∃ close : PlacedToken, close.token = .closeParen ∧
      Token.listFrom offset (spelled parts ++ [')']) = .ok (placed offset parts ++ [close]) := by
  induction parts generalizing offset with
  | nil =>
      refine ⟨⟨.closeParen, offset, offset + byteCount [')']⟩, rfl, ?_⟩
      have scanned : Token.scan ')' [] = .token .closeParen [')'] [] := rfl
      rw [spelled, List.flatMap_nil, List.nil_append, Token.listFrom_token scanned,
        Token.listFrom_nil]
      rfl
  | cons part rest ih =>
      obtain ⟨fits, cutRest⟩ := cut
      rw [spelled, List.flatMap_cons] at plain
      have plainRest : IsPlainText (spelled rest) := plain.of_append
      obtain ⟨close, closes, listed⟩ := ih cutRest plainRest (offset + byteCount part.spelling)
      obtain ⟨c, cs, whole, scanned⟩ := NamePart.scan_spelling fits.closed plainRest.head_ne_quote
      refine ⟨close, closes, ?_⟩
      rw [spelled, List.flatMap_cons, List.append_assoc]
      change Token.listFrom offset (part.spelling ++ (spelled rest ++ [')'])) = _
      rw [whole, Token.listFrom_token scanned, listed]
      rfl

/-- What stands at the front of a text that can be scanned is a part of it. -/
theorem exists_part {c : Char} {cs : List Char} (plain : IsPlainText (c :: cs))
    (readable : ∀ text, Token.scan c (cs ++ [')']) ≠ .unreadable text) :
    ∃ (part : NamePart) (rest : List Char), part.spelling ++ rest = c :: cs ∧ part.Fits rest := by
  rcases plain c (by simp) with isChar | rfl | rfl
  · rw [isNameChar, Bool.or_eq_true] at isChar
    rcases isChar with start | digit
    · exact ⟨.word _, _, List.takeWhile_append_dropWhile, isName_takeWhile start cs,
        any_head?_dropWhile isNameChar (c :: cs)⟩
    · refine ⟨.number _, _, List.takeWhile_append_dropWhile, ?_, List.all_takeWhile, ?_,
        any_head?_dropWhile Char.isDigit (c :: cs)⟩
      · simp [digit]
      · by_contra large
        have ends := any_head?_closed (by decide) (any_head?_dropWhile Char.isDigit (c :: cs))
        have all : ((c :: cs).takeWhile Char.isDigit).all Char.isDigit := List.all_takeWhile
        have digits := takeWhile_of_ends all ends
        rw [← List.append_assoc, List.takeWhile_append_dropWhile] at digits
        apply readable ((c :: cs).takeWhile Char.isDigit)
        rw [Token.scan_of_isDigit digit, ← List.cons_append, Token.scanNumber, digits]
        exact if_neg large
  · exact ⟨.period, cs, rfl, trivial⟩
  · cases cs with
    | nil => exact absurd rfl (readable ['&'])
    | cons d ds =>
        by_cases start : isNameStart d
        · exact ⟨.reference _, _, congrArg ('&' :: ·) List.takeWhile_append_dropWhile,
            isName_takeWhile start ds, any_head?_dropWhile isNameChar (d :: ds)⟩
        · have noParenthesis : d ≠ '(' := by
            rintro rfl
            exact absurd (plain '(' (by simp)) (by decide)
          exact absurd (Token.scanVariable_of_not_isNameStart noParenthesis start (ds ++ [')']))
            (readable ['&'])

/-- A text that is scanned in front of a closing parenthesis is cut into parts. -/
theorem exists_isCut (text : List Char) (plain : IsPlainText text) {offset : Nat}
    {tokens : List PlacedToken} (scanned : Token.listFrom offset (text ++ [')']) = .ok tokens) :
    ∃ parts, spelled parts = text ∧ IsCut parts := by
  cases text with
  | nil => exact ⟨[], rfl, trivial⟩
  | cons c cs =>
      have readable (text : List Char) : Token.scan c (cs ++ [')']) ≠ .unreadable text := by
        intro unreadable
        rw [List.cons_append, Token.listFrom_unreadable unreadable] at scanned
        exact nomatch scanned
      obtain ⟨part, rest, whole, fits⟩ := exists_part plain readable
      have plainRest : IsPlainText rest := (whole ▸ plain : IsPlainText (_ ++ _)).of_append
      obtain ⟨d, ds, begins, first⟩ := NamePart.scan_spelling fits.closed plainRest.head_ne_quote
      have shorter : rest.length < (c :: cs).length := by
        have fewer := Token.length_rest_lt_of_scan first
        have same := congrArg List.length begins
        rw [← whole]
        simp only [List.length_append, List.length_cons, List.length_nil] at *
        omega
      rw [← whole, List.append_assoc, begins, Token.listFrom_token first] at scanned
      obtain ⟨others, scannedRest, _⟩ := Phrase.map_eq_ok_iff.mp scanned
      obtain ⟨parts, spells, cut⟩ := exists_isCut rest plainRest scannedRest
      refine ⟨part :: parts, ?_, spells ▸ fits, cut⟩
      rw [spelled, List.flatMap_cons]
      change part.spelling ++ spelled parts = _
      rw [spells, whole]
termination_by text.length

end ConditionalAssembly
