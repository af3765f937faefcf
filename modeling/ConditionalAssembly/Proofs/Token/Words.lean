import ConditionalAssembly.Proofs.Concatenation.Numerals
import ConditionalAssembly.Proofs.Token.Scanning

/-!
# Words and numbers

A word, a variable and a number go as far as their characters do.  What they
are is told by their first characters.

A token is not changed by a closing parenthesis behind the text it stands in.
-/

namespace ConditionalAssembly

open Text

/-! ## Characters -/

theorem isDigit_eq_false_of_isNameStart {c : Char} (start : isNameStart c) : c.isDigit = false := by
  rw [Bool.eq_false_iff]
  intro digit
  obtain ⟨n, below, rfl⟩ := Decimal.exists_digitChar digit
  interval_cases n <;> exact absurd start (by decide)

theorem isNameChar_of_isDigit {c : Char} (digit : c.isDigit) : isNameChar c := by
  simp [isNameChar, digit]

theorem any_head?_closed {p : Char → Bool} (closes : p ')' = false) {rest : List Char}
    (ends : rest.head?.any p = false) : (rest ++ [')']).head?.any p = false := by
  cases rest with
  | nil => simpa using closes
  | cons c cs => exact ends

theorem any_head?_dropWhile (p : Char → Bool) (cs : List Char) :
    (cs.dropWhile p).head?.any p = false := by
  have first := List.head?_dropWhile_not p cs
  cases head : (cs.dropWhile p).head? with
  | none => rfl
  | some c => simpa [head] using first

theorem isName_takeWhile {c : Char} (start : isNameStart c) (cs : List Char) :
    isName ((c :: cs).takeWhile isNameChar) := by
  rw [List.takeWhile_cons_of_pos (Token.isNameChar_of_isNameStart start)]
  simp [isName, start]

/-- Each character of a name is one byte. -/
theorem utf8Size_of_isNameChar {c : Char} (isChar : isNameChar c) : c.utf8Size = 1 := by
  simp only [isNameChar, isNameStart, Bool.or_eq_true, beq_iff_eq] at isChar
  rcases isChar with ((((letter | rfl) | rfl) | rfl) | rfl) | digit
  · rcases (Bool.or_eq_true ..).mp letter with upper | lower
    · exact Char.utf8Size_eq_one_iff.mpr
        (UInt32.le_trans (of_decide_eq_true upper).2 (by decide))
    · exact Char.utf8Size_eq_one_iff.mpr
        (UInt32.le_trans (of_decide_eq_true ((Bool.and_eq_true ..).mp lower).2) (by decide))
  · rfl
  · rfl
  · rfl
  · rfl
  · exact Char.utf8Size_eq_one_iff.mpr
      (UInt32.le_trans (of_decide_eq_true ((Bool.and_eq_true ..).mp digit).2) (by decide))

theorem byteCount_of_all {cs : List Char} (all : cs.all isNameChar) :
    byteCount cs = cs.length := by
  induction cs with
  | nil => rfl
  | cons c cs ih =>
      rw [List.all_cons, Bool.and_eq_true] at all
      rw [byteCount, utf8Size_of_isNameChar all.1, ih all.2, List.length_cons, Nat.add_comm]

namespace Token

/-! ## The first token -/

theorem isSkipped_eq_false_of_isNameChar {c : Char} (isChar : isNameChar c) :
    isSkipped c = false := by
  rw [Bool.eq_false_iff]
  intro skipped
  simp only [isSkipped, Bool.or_eq_true, beq_iff_eq] at skipped
  rcases skipped with (((rfl | rfl) | rfl) | rfl) | rfl <;> exact absurd isChar (by decide)

/-- What starts like a name is scanned as a word. -/
theorem scan_of_isNameStart {c : Char} (start : isNameStart c) (cs : List Char) :
    scan c cs = scanWord c cs := by
  have shown := isSkipped_eq_false_of_isNameChar (isNameChar_of_isNameStart start)
  have noQuote : c ≠ '\'' := by
    rintro rfl
    exact absurd start (by decide)
  have noAmpersand : c ≠ '&' := by
    rintro rfl
    exact absurd start (by decide)
  simp [scan, shown, isDigit_eq_false_of_isNameStart start, noQuote, noAmpersand, start]

theorem scan_of_isDigit {c : Char} (digit : c.isDigit) (cs : List Char) :
    scan c cs = scanNumber (c :: cs) := by
  simp [scan, isSkipped_eq_false_of_isNameChar (isNameChar_of_isDigit digit), digit]

theorem scanWord_of_noQuote {c : Char} {cs : List Char} (noQuote : cs.head? ≠ some '\'') :
    scanWord c cs = scanName .identifier [] (c :: cs) := by
  unfold scanWord
  split
  next => exact absurd rfl noQuote
  next => exact absurd rfl noQuote
  next => rfl

/-- A name behind an ampersand is a variable. -/
theorem scanVariable_of_isNameStart {c : Char} (start : isNameStart c) (cs : List Char) :
    scanVariable (c :: cs) = scanName .variableName ['&'] (c :: cs) := by
  unfold scanVariable
  split
  next opens =>
    cases opens
    exact absurd start (by decide)
  next same =>
    cases same
    rw [if_pos start]
  next nothing => exact nomatch nothing

theorem scanVariable_of_not_isNameStart {c : Char} (noParenthesis : c ≠ '(')
    (start : ¬ isNameStart c) (cs : List Char) : scanVariable (c :: cs) = .unreadable ['&'] := by
  unfold scanVariable
  split
  next opens => exact absurd (List.cons.inj opens).1 noParenthesis
  next same =>
    cases same
    rw [if_neg start]
  next => rfl

theorem scanName_append (token : String → Token) (beginning : List Char) {name rest : List Char}
    (valid : isName name) (ends : rest.head?.any isNameChar = false) :
    scanName token beginning (name ++ rest) =
      .token (token (nameOf name)) (beginning ++ name) rest := by
  have all := all_of_isName valid
  rw [scanName, takeWhile_of_ends all ends, dropWhile_of_ends all ends]

/-! ## In front of a closing parenthesis -/

/-- What is scanned, with a closing parenthesis behind the text it stands in. -/
def Scan.closed : Scan → Scan
  | .token found spelling rest => .token found spelling (rest ++ [')'])
  | other => other

/-- Characters of a kind reach as far when a parenthesis follows the text. -/
theorem takeWhile_closed {p : Char → Bool} (closes : p ')' = false) (cs : List Char) :
    (cs ++ [')']).takeWhile p = cs.takeWhile p ∧
      (cs ++ [')']).dropWhile p = cs.dropWhile p ++ [')'] := by
  have all : (cs.takeWhile p).all p := List.all_takeWhile
  have ends := any_head?_closed closes (any_head?_dropWhile p cs)
  have whole : cs ++ [')'] = cs.takeWhile p ++ (cs.dropWhile p ++ [')']) := by
    rw [← List.append_assoc, List.takeWhile_append_dropWhile]
  rw [whole]
  exact ⟨takeWhile_of_ends all ends, dropWhile_of_ends all ends⟩

theorem scanName_closed (token : String → Token) (beginning cs : List Char) :
    scanName token beginning (cs ++ [')']) = (scanName token beginning cs).closed := by
  obtain ⟨name, behind⟩ := takeWhile_closed (p := isNameChar) (by decide) cs
  rw [scanName, name, behind]
  rfl

theorem scanNumber_closed (cs : List Char) :
    scanNumber (cs ++ [')']) = (scanNumber cs).closed := by
  obtain ⟨digits, behind⟩ := takeWhile_closed (p := Char.isDigit) (by decide) cs
  rw [scanNumber, digits, behind, scanNumber]
  split <;> rfl

/-- A string that ends goes no further when a parenthesis follows the text. -/
theorem quoted?_closed {cs raw rest : List Char} (found : quoted? cs = some (raw, rest)) :
    quoted? (cs ++ [')']) = some (raw, rest ++ [')']) := by
  fun_induction quoted? cs generalizing raw with
  | case1 => cases found
  | case2 cs ih =>
      obtain ⟨parts, foundParts, same⟩ := Option.map_eq_some_iff.mp found
      cases same
      rw [List.cons_append, List.cons_append, quoted?, ih foundParts]
      rfl
  | case3 cs single =>
      cases found
      rw [List.cons_append, quoted?.eq_def]
      cases rest with
      | nil => rfl
      | cons d ds =>
          split
          next same => cases same
          next same =>
            cases same
            exact absurd rfl (single ds)
          next same =>
            cases same
            rfl
          next other same =>
            cases same
            exact absurd rfl other
  | case4 c cs notPair notQuote ih =>
      obtain ⟨parts, foundParts, same⟩ := Option.map_eq_some_iff.mp found
      cases same
      have noQuote : c ≠ '\'' := by
        rintro rfl
        exact notQuote rfl
      have further := continues_char noQuote (cs ++ [')'])
      rw [ih foundParts] at further
      exact further

theorem scanString_closed {cs : List Char} (readable : ∀ text, scanString cs ≠ .unreadable text) :
    scanString (cs ++ [')']) = (scanString cs).closed := by
  cases found : quoted? cs with
  | none => exact absurd (by rw [scanString, found]) (readable ('\'' :: cs))
  | some parts =>
      rw [scanString, quoted?_closed found, scanString, found]
      rfl

theorem scanVariable_closed {cs : List Char}
    (readable : ∀ text, scanVariable cs ≠ .unreadable text) :
    scanVariable (cs ++ [')']) = (scanVariable cs).closed := by
  cases cs with
  | nil => exact absurd rfl (readable ['&'])
  | cons c cs =>
      by_cases opens : c = '('
      · subst opens
        rfl
      · by_cases start : isNameStart c
        · rw [List.cons_append, scanVariable_of_isNameStart start,
            scanVariable_of_isNameStart start, ← List.cons_append, scanName_closed]
        · exact absurd (scanVariable_of_not_isNameStart opens start cs) (readable ['&'])

section Attributes

variable {c : Char} {kind : Attribute} (letter : Attribute.ofLetter? c = some kind)

include letter

/-- A letter, a quote and a name make an attribute of a symbol. -/
theorem scanWord_quote {n : Char} (noAmpersand : n ≠ '&') (rest : List Char) :
    scanWord c ('\'' :: n :: rest) =
      if isNameStart n then scanName (.attributeOf kind false) [c, '\''] (n :: rest)
      else scanName .identifier [] (c :: '\'' :: n :: rest) := by
  unfold scanWord
  split
  next same => exact absurd (List.cons.inj (List.cons.inj same).2).1 noAmpersand
  next found same =>
    cases same
    cases letter.symm.trans found
    rfl
  next other => exact absurd rfl (other kind n rest letter)

/-- A letter, a quote, an ampersand and a name make an attribute of a variable. -/
theorem scanWord_quoteAmpersand (n : Char) (rest : List Char) :
    scanWord c ('\'' :: '&' :: n :: rest) =
      if isNameStart n then scanName (.attributeOf kind true) [c, '\'', '&'] (n :: rest)
      else scanName .identifier [] (c :: '\'' :: '&' :: n :: rest) := by
  simp only [scanWord, letter]

theorem scanWord_quote_nil : scanWord c ['\''] = scanName .identifier [] [c, '\''] := by
  simp only [scanWord, letter]

theorem scanWord_quoteAmpersand_nil :
    scanWord c ['\'', '&'] = scanName .identifier [] [c, '\'', '&'] := by
  have noName : isNameStart '&' = false := by decide
  simp only [scanWord, letter, noName, Bool.false_eq_true, if_false]

end Attributes

theorem scanWord_closed (c : Char) (cs : List Char) :
    scanWord c (cs ++ [')']) = (scanWord c cs).closed := by
  have word : scanName .identifier [] (c :: (cs ++ [')'])) =
      (scanName .identifier [] (c :: cs)).closed := scanName_closed .identifier [] (c :: cs)
  have noName : isNameStart ')' = false := by decide
  cases letter : Attribute.ofLetter? c with
  | none => simpa only [scanWord, letter] using word
  | some kind =>
      by_cases quote : cs.head? = some '\''
      · obtain ⟨more, rfl⟩ := List.head?_eq_some_iff.mp quote
        rcases more with _ | ⟨n, rest⟩
        · rw [scanWord_quote_nil letter, ← word]
          change scanWord c ['\'', ')'] = _
          rw [scanWord_quote letter (by decide), noName]
          rfl
        by_cases ampersand : n = '&'
        · subst ampersand
          rcases rest with _ | ⟨n, rest⟩
          · rw [scanWord_quoteAmpersand_nil letter, ← word]
            change scanWord c ['\'', '&', ')'] = _
            rw [scanWord_quoteAmpersand letter, noName]
            rfl
          · simp only [List.cons_append, scanWord_quoteAmpersand letter] at word ⊢
            split
            next => exact scanName_closed _ _ (n :: rest)
            next => exact word
        · simp only [List.cons_append, scanWord_quote letter ampersand] at word ⊢
          split
          next => exact scanName_closed _ _ (n :: rest)
          next => exact word
      · have quoteBehind : (cs ++ [')']).head? ≠ some '\'' := by
          cases cs with
          | nil => decide
          | cons d ds => exact quote
        rw [scanWord_of_noQuote quote, scanWord_of_noQuote quoteBehind, word]

/-- A token is not changed by a closing parenthesis behind the text it stands in. -/
theorem scan_closed {c : Char} {cs : List Char} (readable : ∀ text, scan c cs ≠ .unreadable text) :
    scan c (cs ++ [')']) = (scan c cs).closed := by
  by_cases skipped : isSkipped c
  · simp [scan, skipped, Scan.closed]
  by_cases digit : c.isDigit
  · simpa [scan, skipped, digit] using scanNumber_closed (c :: cs)
  by_cases quote : c = '\''
  · subst quote
    exact scanString_closed readable
  by_cases ampersand : c = '&'
  · subst ampersand
    exact scanVariable_closed readable
  by_cases start : isNameStart c
  · rw [scan_of_isNameStart start, scan_of_isNameStart start, scanWord_closed]
  cases single : ofChar? c with
  | none => simp [scan, skipped, digit, quote, ampersand, start, single] at readable
  | some found => simp [scan, skipped, digit, quote, ampersand, start, single, Scan.closed]

end Token

end ConditionalAssembly
