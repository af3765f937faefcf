/-!
# Texts

What expressions and their evaluation need of texts: names and how they are
compared, blanks, sizes in bytes, cutting and joining at separators, copies, the
search for one text in another and the order of texts.

Columns count the bytes that characters take in the UTF-8 encoding, while the
positions in a character value count characters from one.
-/

namespace ConditionalAssembly.Text

/-! ## Names

A name starts with a letter or one of `_ @ # $` and goes on with the same
characters and digits.  Letters are those of ASCII, and names are compared in
upper case.
-/

/-- The characters a name may start with. -/
def isNameStart (c : Char) : Bool :=
  c.isAlpha || c == '_' || c == '@' || c == '#' || c == '$'

/-- The characters a name may go on with. -/
def isNameChar (c : Char) : Bool :=
  isNameStart c || c.isDigit

/-- A text with its ASCII letters in upper case. -/
def upper (text : String) : String :=
  text.map Char.toUpper

/-- A text with its ASCII letters in lower case. -/
def lower (text : String) : String :=
  text.map Char.toLower

/-- The name spelled by some characters, in upper case. -/
def nameOf (spelling : List Char) : String :=
  String.ofList (spelling.map Char.toUpper)

/-! ## Blanks -/

/-- The ranges of code points with the property White_Space. -/
def blankRanges : List (Nat × Nat) :=
  [(0x09, 0x0D), (0x20, 0x20), (0x85, 0x85), (0xA0, 0xA0), (0x1680, 0x1680), (0x2000, 0x200A),
    (0x2028, 0x2029), (0x202F, 0x202F), (0x205F, 0x205F), (0x3000, 0x3000)]

/-- The character is blank. -/
def isBlank (c : Char) : Bool :=
  blankRanges.any fun range => range.1 ≤ c.toNat && c.toNat ≤ range.2

/-- A run of characters without the blanks at both ends. -/
def trimChars (cs : List Char) : List Char :=
  ((cs.dropWhile isBlank).reverse.dropWhile isBlank).reverse

/-- A text without the blanks at both ends. -/
def trim (text : String) : String :=
  String.ofList (trimChars text.toList)

/-! ## Sizes -/

/-- The number of bytes some characters take. -/
def byteCount : List Char → Nat
  | [] => 0
  | c :: cs => c.utf8Size + byteCount cs

theorem byteCount_append (before after : List Char) :
    byteCount (before ++ after) = byteCount before + byteCount after := by
  induction before with
  | nil => exact (Nat.zero_add _).symm
  | cons c cs ih => rw [List.cons_append, byteCount, byteCount, ih, Nat.add_assoc]

theorem byteCount_pos {cs : List Char} (nonempty : cs ≠ []) : 0 < byteCount cs := by
  cases cs with
  | nil => exact absurd rfl nonempty
  | cons c cs => exact Nat.lt_of_lt_of_le c.utf8Size_pos (Nat.le_add_right _ _)

theorem byteCount_ofList (cs : List Char) :
    byteCount cs = (String.ofList cs).utf8ByteSize := by
  induction cs with
  | nil => rfl
  | cons c cs ih =>
      rw [byteCount, ih, ← List.singleton_append, String.ofList_append,
        String.utf8ByteSize_append, ← String.singleton_eq_ofList, String.utf8ByteSize_singleton]

theorem byteCount_toList (text : String) : byteCount text.toList = text.utf8ByteSize := by
  rw [byteCount_ofList, String.ofList_toList]

/-! ## Separators -/

/-- The parts before and after the first separator, when there is one. -/
def splitFirst? (separator : Char) : List Char → Option (List Char × List Char)
  | [] => none
  | c :: cs =>
      if c = separator then some ([], cs)
      else (splitFirst? separator cs).map fun parts => (c :: parts.1, parts.2)

/-- The first part of a text and the parts that follow it, between separators. -/
def splitAll (separator : Char) : List Char → List Char × List (List Char)
  | [] => ([], [])
  | c :: cs =>
      let parts := splitAll separator cs
      if c = separator then ([], parts.1 :: parts.2) else (c :: parts.1, parts.2)

/-- A text is cut exactly around its first separator. -/
theorem splitFirst?_eq_some_iff {separator : Char} {cs before after : List Char} :
    splitFirst? separator cs = some (before, after) ↔
      cs = before ++ separator :: after ∧ separator ∉ before := by
  induction cs generalizing before with
  | nil => simp [splitFirst?]
  | cons c cs ih =>
      by_cases same : c = separator
      · cases before with
        | nil => simp [splitFirst?, same]
        | cons b before =>
            simp only [splitFirst?, same, if_true]
            grind
      · cases before with
        | nil => simp [splitFirst?, same]
        | cons b before =>
            simp only [splitFirst?, same, if_false, Option.map_eq_some_iff]
            grind

/-- The texts of a list with a separator between neighbours. -/
def join (separator : String) : List String → String
  | [] => ""
  | [text] => text
  | text :: rest => text ++ separator ++ join separator rest

theorem join_cons_cons (separator text next : String) (rest : List String) :
    join separator (text :: next :: rest) = text ++ separator ++ join separator (next :: rest) :=
  rfl

/-! ## Copies

Copies of a text are cut off at a limit.  Those that lie beyond it are never
made.
-/

/-- The first `limit` characters of some copies of a run that is not empty. -/
def copiesFrom (run : List Char) : Nat → Nat → List Char
  | _, 0 => []
  | limit, copies + 1 =>
      if limit = 0 then [] else run.take limit ++ copiesFrom run (limit - run.length) copies

/-- The first `limit` characters of some copies of a run. -/
def copies (run : List Char) (limit count : Nat) : List Char :=
  if run = [] then [] else copiesFrom run limit count

/-- The copies made are the beginning of the full repetition. -/
theorem copiesFrom_eq_take (run : List Char) (limit count : Nat) :
    copiesFrom run limit count = (List.replicate count run).flatten.take limit := by
  induction count generalizing limit with
  | zero => simp [copiesFrom]
  | succ count ih =>
      rw [copiesFrom, List.replicate_succ, List.flatten_cons, List.take_append, ← ih]
      split
      next full => simp [full, ih]
      next => rfl

/-- The copies made are the beginning of the full repetition, empty runs included. -/
theorem copies_eq_take (run : List Char) (limit count : Nat) :
    copies run limit count = (List.replicate count run).flatten.take limit := by
  unfold copies
  split
  next empty => simp [empty]
  next => exact copiesFrom_eq_take run limit count

/-! ## Searching

Zero says that nothing was found.  An empty text is found nowhere.
-/

/-- The number of characters before the first occurrence of a run. -/
def occurrence? (needle : List Char) : List Char → Option Nat
  | [] => if needle.isPrefixOf [] then some 0 else none
  | c :: cs =>
      if needle.isPrefixOf (c :: cs) then some 0 else (occurrence? needle cs).map (· + 1)

/-- The position at which the second text first occurs in the first. -/
def index (text needle : String) : Nat :=
  if needle.isEmpty then 0
  else match occurrence? needle.toList text.toList with
    | some before => before + 1
    | none => 0

/-- The position of the first character of a text that is one of those wanted. -/
def find (text wanted : String) : Nat :=
  match text.toList.findIdx? (wanted.toList.contains ·) with
  | some before => before + 1
  | none => 0

/-! ## Order

A text that takes fewer bytes is lower; texts of equal size are ordered by their
first difference.
-/

/-- The place of one text relative to another: by size, then by content. -/
def order (left right : String) : Ordering :=
  (compare left.utf8ByteSize right.utf8ByteSize).then (compare left right)

/-- The order is total and transitive, being made of two such orders. -/
instance instTransCmpOrder : Std.TransCmp order :=
  inferInstanceAs (Std.TransCmp (compareLex (compareOn String.utf8ByteSize) compare))

theorem order_eq_eq_iff {left right : String} : order left right = .eq ↔ left = right := by
  simp only [order, Ordering.then_eq_eq, Std.LawfulEqCmp.compare_eq_iff_eq]
  exact ⟨And.right, fun same => ⟨congrArg String.utf8ByteSize same, same⟩⟩

end ConditionalAssembly.Text
