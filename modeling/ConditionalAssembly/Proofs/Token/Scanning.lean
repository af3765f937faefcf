import ConditionalAssembly.Token.Lexer

/-!
# Scanning token by token

What stands at the front of a text decides the first token, and the other
tokens are those of what follows it.  A quoted text reaches as far as its
quotes come in pairs.
-/

namespace ConditionalAssembly

namespace Text

/-- The characters spell a name. -/
def isName : List Char → Bool
  | [] => false
  | c :: cs => isNameStart c && cs.all isNameChar

theorem isNameStart_of_isName {c : Char} {cs : List Char} (valid : isName (c :: cs)) :
    isNameStart c := by
  rw [isName, Bool.and_eq_true] at valid
  exact valid.1

theorem all_of_isName {name : List Char} (valid : isName name) : name.all isNameChar := by
  cases name with
  | nil => exact nomatch valid
  | cons c cs =>
      rw [isName, Bool.and_eq_true] at valid
      simpa [isNameChar, valid.1] using valid.2

/-- The name spelled by a text is the text in upper case. -/
theorem nameOf_toList (name : String) : nameOf name.toList = upper name := by
  rw [nameOf, upper, ← String.toList_map, String.ofList_toList]

section Kinds

variable {p : Char → Bool} {front rest : List Char}

theorem all_of_imp {q : Char → Bool} (all : front.all p) (wider : ∀ c, p c → q c) :
    front.all q := by
  apply List.all_eq_true.mpr
  intro c isChar
  exact wider c (List.all_eq_true.mp all c isChar)

theorem not_mem_of_all (all : front.all p) {c : Char} (other : p c = false) : c ∉ front := by
  intro isChar
  exact absurd (List.all_eq_true.mp all c isChar) (by simp [other])

theorem takeWhile_of_ends (all : front.all p) (ends : rest.head?.any p = false) :
    (front ++ rest).takeWhile p = front := by
  rw [List.takeWhile_append_of_pos (List.all_eq_true.mp all)]
  cases rest with
  | nil => simp
  | cons c cs => simp [List.takeWhile_cons_of_neg (by simpa using ends)]

theorem dropWhile_of_ends (all : front.all p) (ends : rest.head?.any p = false) :
    (front ++ rest).dropWhile p = rest := by
  rw [List.dropWhile_append_of_pos (List.all_eq_true.mp all)]
  cases rest with
  | nil => rfl
  | cons c cs => rw [List.dropWhile_cons_of_neg (by simpa using ends)]

end Kinds

end Text

namespace Token

open ConditionalAssembly.Text

/-! ## The first token -/

/-- The token at the front of a text stands in front of the others. -/
theorem listFrom_token {c : Char} {cs spelling rest : List Char} {token : Token}
    (scanned : scan c cs = .token token spelling rest) (offset : Nat) :
    listFrom offset (c :: cs) =
      (⟨token, offset, offset + byteCount spelling⟩ :: ·) <$>
        listFrom (offset + byteCount spelling) rest := by
  rw [listFrom]
  split
  next blank => cases blank.symm.trans scanned
  next token' spelling' rest' scanned' =>
    cases scanned'.symm.trans scanned
    rfl
  next text unreadable => cases unreadable.symm.trans scanned

/-- A blank at the front of a text is skipped. -/
theorem listFrom_blank {c : Char} {cs : List Char} (blank : scan c cs = .blank) (offset : Nat) :
    listFrom offset (c :: cs) = listFrom (offset + c.utf8Size) cs := by
  rw [listFrom]
  split
  next => rfl
  next scanned => cases blank.symm.trans scanned
  next unreadable => cases blank.symm.trans unreadable

/-- A text with something unreadable at its front has no tokens. -/
theorem listFrom_unreadable {c : Char} {cs text : List Char}
    (scanned : scan c cs = .unreadable text) (offset : Nat) :
    listFrom offset (c :: cs) = .error ⟨.invalidInput (String.ofList text), offset + 1⟩ := by
  rw [listFrom]
  split
  next blank => cases blank.symm.trans scanned
  next token spelling rest scanned' => cases scanned'.symm.trans scanned
  next text' unreadable =>
    cases unreadable.symm.trans scanned
    rfl

theorem listFrom_nil (offset : Nat) : listFrom offset [] = .ok [] := by
  rw [listFrom]

/-! ## Quoted texts -/

/-- A quoted text goes on behind these characters. -/
def Continues (cs : List Char) : Prop :=
  ∀ rest, quoted? (cs ++ rest) = (quoted? rest).map fun parts => (cs ++ parts.1, parts.2)

theorem continues_nil : Continues [] := by
  intro rest
  simp

theorem Continues.append {first second : List Char} (one : Continues first)
    (two : Continues second) : Continues (first ++ second) := by
  intro rest
  rw [List.append_assoc, one, two, Option.map_map]
  simp [Function.comp_def]

/-- A quoted text goes on behind a character that is no quote. -/
theorem continues_char {c : Char} (noQuote : c ≠ '\'') : Continues [c] := by
  intro rest
  rw [List.singleton_append, quoted?.eq_def]
  split
  next same => exact nomatch same
  next same => exact absurd (List.cons.inj same).1 noQuote
  next same => exact absurd (List.cons.inj same).1 noQuote
  next same =>
    cases same
    rfl

/-- A quoted text goes on behind two quotes. -/
theorem continues_quotes : Continues ['\'', '\''] := by
  intro rest
  change quoted? ('\'' :: '\'' :: rest) = _
  rw [quoted?]
  rfl

theorem continues_of_noQuote {cs : List Char} (noQuote : '\'' ∉ cs) : Continues cs := by
  induction cs with
  | nil => exact continues_nil
  | cons c cs ih =>
      rw [List.mem_cons, not_or] at noQuote
      exact (continues_char (Ne.symm noQuote.1)).append (ih noQuote.2)

/-- A source that is one quoted text is one token. -/
theorem listOf_quoted {body : List Char} (continues : Continues body) :
    listOf (String.ofList ('\'' :: (body ++ ['\'']))) =
      .ok [⟨.string (String.ofList body), 0, byteCount ('\'' :: (body ++ ['\'']))⟩] := by
  have found : quoted? (body ++ ['\'']) = some (body, []) := by
    rw [continues]
    simp [quoted?]
  have scanned : scan '\'' (body ++ ['\'']) =
      .token (.string (String.ofList body)) ('\'' :: (body ++ ['\''])) [] := by
    have string : scan '\'' (body ++ ['\'']) = scanString (body ++ ['\'']) := rfl
    rw [string, scanString, found]
    rfl
  rw [listOf, String.toList_ofList, listFrom_token scanned, listFrom_nil, Nat.zero_add]
  rfl

end Token

end ConditionalAssembly
