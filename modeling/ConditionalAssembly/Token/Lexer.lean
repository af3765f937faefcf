import ConditionalAssembly.ReadError
import ConditionalAssembly.Text
import ConditionalAssembly.Token

/-!
# From text to tokens

The source is cut from left to right, each token being the longest that starts
where the last one ended.  Blanks between tokens are skipped.  A string that is
still open at the end of the source is refused as a whole.

A token and what follows it are the text they were taken from, and no token is
empty.
-/

namespace ConditionalAssembly.Token

open ConditionalAssembly.Text

/-! ## One token -/

/-- The characters that may stand between tokens. -/
def isSkipped (c : Char) : Bool :=
  c == ' ' || c == '\t' || c == '\r' || c == '\n' || c == '\x0c'

/-- The greatest number a token can hold. -/
def maxInteger : Nat :=
  9223372036854775807

/-- The text of a string behind its first quote, and what follows the string.
Two quotes in a row belong to the text. -/
def quoted? : List Char → Option (List Char × List Char)
  | [] => none
  | '\'' :: '\'' :: cs => (quoted? cs).map fun parts => ('\'' :: '\'' :: parts.1, parts.2)
  | '\'' :: cs => some ([], cs)
  | c :: cs => (quoted? cs).map fun parts => (c :: parts.1, parts.2)

/-- What stands at the front of a text. -/
inductive Scan where
  | blank
  | token (token : Token) (spelling rest : List Char)
  | unreadable (text : List Char)

/-- A token spelled by a beginning and the name that follows it. -/
def scanName (token : String → Token) (beginning cs : List Char) : Scan :=
  let name := cs.takeWhile isNameChar
  .token (token (nameOf name)) (beginning ++ name) (cs.dropWhile isNameChar)

/-- A number that starts with a digit. -/
def scanNumber (cs : List Char) : Scan :=
  let digits := cs.takeWhile Char.isDigit
  if Decimal.value digits ≤ maxInteger then
    .token (.integer (Decimal.value digits)) digits (cs.dropWhile Char.isDigit)
  else .unreadable digits

/-- A string that starts with a quote. -/
def scanString (cs : List Char) : Scan :=
  match quoted? cs with
  | some (raw, rest) => .token (.string (String.ofList raw)) ('\'' :: raw ++ ['\'']) rest
  | none => .unreadable ('\'' :: cs)

/-- A variable symbol or a created name that starts with an ampersand. -/
def scanVariable : List Char → Scan
  | '(' :: cs => .token .createdName ['&', '('] cs
  | c :: cs => if isNameStart c then scanName .variableName ['&'] (c :: cs) else .unreadable ['&']
  | [] => .unreadable ['&']

/-- An identifier, or an attribute when its one letter and a quote come before a name. -/
def scanWord (c : Char) (cs : List Char) : Scan :=
  match Attribute.ofLetter? c, cs with
  | some kind, '\'' :: '&' :: n :: rest =>
      if isNameStart n then scanName (.attributeOf kind true) [c, '\'', '&'] (n :: rest)
      else scanName .identifier [] (c :: cs)
  | some kind, '\'' :: n :: rest =>
      if isNameStart n then scanName (.attributeOf kind false) [c, '\''] (n :: rest)
      else scanName .identifier [] (c :: cs)
  | _, _ => scanName .identifier [] (c :: cs)

/-- What stands at the front of a text that is not empty. -/
def scan (c : Char) (cs : List Char) : Scan :=
  if isSkipped c then .blank
  else if c.isDigit then scanNumber (c :: cs)
  else if c = '\'' then scanString cs
  else if c = '&' then scanVariable cs
  else if isNameStart c then scanWord c cs
  else
    match ofChar? c with
    | some token => .token token [c] cs
    | none => .unreadable [c]

/-! ## What is scanned is what there is -/

/-- A string and what follows it are the text behind the first quote. -/
theorem eq_of_quoted? {cs raw rest : List Char} (found : quoted? cs = some (raw, rest)) :
    raw ++ '\'' :: rest = cs := by
  fun_induction quoted? cs generalizing raw with
  | case1 => exact nomatch found
  | case2 cs ih =>
      obtain ⟨parts, foundParts, same⟩ := Option.map_eq_some_iff.1 found
      cases same
      rw [List.cons_append, List.cons_append, ih foundParts]
  | case3 cs =>
      cases found
      rfl
  | case4 c cs _ _ ih =>
      obtain ⟨parts, foundParts, same⟩ := Option.map_eq_some_iff.1 found
      cases same
      rw [List.cons_append, ih foundParts]

/-- The token is spelled by the front of the text, and what follows is the rest. -/
def Scan.Covers (cs : List Char) : Scan → Prop
  | .token _ spelling rest => spelling ++ rest = cs ∧ spelling ≠ []
  | _ => True

theorem covers_scanName (token : String → Token) (beginning cs : List Char)
    (nonempty : beginning ≠ [] ∨ ∃ c rest, cs = c :: rest ∧ isNameChar c) :
    (scanName token beginning cs).Covers (beginning ++ cs) := by
  refine ⟨by rw [List.append_assoc, List.takeWhile_append_dropWhile], ?_⟩
  rcases nonempty with begun | ⟨c, rest, rfl, isChar⟩
  · exact List.append_ne_nil_of_left_ne_nil begun _
  · simp [isChar]

theorem isNameChar_of_isNameStart {c : Char} (start : isNameStart c) : isNameChar c := by
  simp [isNameChar, start]

theorem covers_scanNumber {c : Char} (cs : List Char) (digit : c.isDigit) :
    (scanNumber (c :: cs)).Covers (c :: cs) := by
  unfold scanNumber
  dsimp only
  split
  · exact ⟨List.takeWhile_append_dropWhile, by simp [digit]⟩
  · trivial

theorem covers_scanString (cs : List Char) : (scanString cs).Covers ('\'' :: cs) := by
  unfold scanString
  split
  next raw rest found =>
    refine ⟨?_, List.cons_ne_nil _ _⟩
    rw [List.cons_append, List.cons_append, List.append_assoc, List.singleton_append,
      eq_of_quoted? found]
  next => trivial

theorem covers_scanVariable (cs : List Char) : (scanVariable cs).Covers ('&' :: cs) := by
  unfold scanVariable
  split
  next => exact ⟨rfl, List.cons_ne_nil _ _⟩
  next =>
    split
    · exact covers_scanName _ ['&'] _ (.inl (List.cons_ne_nil _ _))
    · trivial
  next => trivial

theorem covers_scanWord {c : Char} (cs : List Char) (start : isNameStart c) :
    (scanWord c cs).Covers (c :: cs) := by
  have identifier : (scanName .identifier [] (c :: cs)).Covers (c :: cs) :=
    covers_scanName _ [] _ (.inr ⟨c, cs, rfl, isNameChar_of_isNameStart start⟩)
  unfold scanWord
  split
  next kind n rest _ =>
    split
    · exact covers_scanName _ [c, '\'', '&'] _ (.inl (List.cons_ne_nil _ _))
    · exact identifier
  next kind n rest _ _ =>
    split
    · exact covers_scanName _ [c, '\''] _ (.inl (List.cons_ne_nil _ _))
    · exact identifier
  next => exact identifier

/-- A token and what follows it are the text they were taken from. -/
theorem spelling_of_scan {c : Char} {cs spelling rest : List Char} {token : Token}
    (scanned : scan c cs = .token token spelling rest) :
    spelling ++ rest = c :: cs ∧ spelling ≠ [] := by
  suffices covers : (scan c cs).Covers (c :: cs) by
    rw [scanned] at covers
    exact covers
  unfold scan
  split
  next => trivial
  next =>
    split
    next digit => exact covers_scanNumber cs digit
    next =>
      split
      next quote =>
        subst quote
        exact covers_scanString cs
      next =>
        split
        next ampersand =>
          subst ampersand
          exact covers_scanVariable cs
        next =>
          split
          next start => exact covers_scanWord cs start
          next =>
            split
            · exact ⟨rfl, List.cons_ne_nil _ _⟩
            · trivial

theorem length_rest_lt_of_scan {c : Char} {cs spelling rest : List Char} {token : Token}
    (scanned : scan c cs = .token token spelling rest) : rest.length < (c :: cs).length := by
  obtain ⟨whole, nonempty⟩ := spelling_of_scan scanned
  have positive := List.length_pos_iff.2 nonempty
  rw [← whole, List.length_append]
  omega

/-! ## The whole text -/

/-- The tokens of a text that starts at an offset in the source. -/
def listFrom (offset : Nat) (cs : List Char) : Except ReadError (List PlacedToken) :=
  match cs with
  | [] => .ok []
  | c :: cs =>
      match scanned : scan c cs with
      | .blank => listFrom (offset + c.utf8Size) cs
      | .token token spelling rest =>
          (⟨token, offset, offset + byteCount spelling⟩ :: ·) <$>
            listFrom (offset + byteCount spelling) rest
      | .unreadable text => .error ⟨.invalidInput (String.ofList text), offset + 1⟩
termination_by cs.length
decreasing_by
  · exact Nat.lt_succ_self _
  · exact length_rest_lt_of_scan scanned

/-- The tokens of a source text. -/
def listOf (source : String) : Except ReadError (List PlacedToken) :=
  listFrom 0 source.toList

end ConditionalAssembly.Token
