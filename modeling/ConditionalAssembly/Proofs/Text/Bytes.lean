import Mathlib
import ConditionalAssembly.Text

/-!
# Texts as bytes

A text is stored as the bytes of its UTF-8 encoding.  The encoding keeps the
order of characters, and a byte that begins a character never stands inside
one.  So texts are ordered as their bytes are, and a search among the bytes
finds what a search among the characters finds.
-/

namespace ConditionalAssembly.Text

/-- The bytes of some characters. -/
def bytes (cs : List Char) : List UInt8 :=
  cs.flatMap String.utf8EncodeChar

/-- They are the bytes in which a text of the characters is kept. -/
theorem toByteArray_bytes (text : String) : (bytes text.toList).toByteArray = text.toByteArray := by
  rw [← String.utf8Encode_toList, List.utf8Encode, bytes]

theorem bytes_cons (c : Char) (cs : List Char) :
    bytes (c :: cs) = String.utf8EncodeChar c ++ bytes cs :=
  rfl

theorem bytes_append (before after : List Char) :
    bytes (before ++ after) = bytes before ++ bytes after :=
  List.flatMap_append

theorem length_bytes (cs : List Char) : (bytes cs).length = byteCount cs := by
  induction cs with
  | nil => rfl
  | cons c cs ih => rw [bytes_cons, List.length_append, String.length_utf8EncodeChar, ih, byteCount]

theorem length_le_byteCount (cs : List Char) : cs.length ≤ byteCount cs := by
  induction cs with
  | nil => rfl
  | cons c cs ih =>
      have positive := c.utf8Size_pos
      rw [List.length_cons, byteCount]
      omega

/-- Only the characters of ASCII take a single byte each. -/
theorem byteCount_eq_length_iff {cs : List Char} :
    byteCount cs = cs.length ↔ ∀ c ∈ cs, c.toNat < 128 := by
  induction cs with
  | nil => simp [byteCount]
  | cons c cs ih =>
      have single : c.utf8Size = 1 ↔ c.toNat < 128 := by
        rw [Char.utf8Size_eq_one_iff, UInt32.le_iff_toNat_le, Char.toNat_val]
        exact Nat.lt_succ_iff.symm
      have positive := c.utf8Size_pos
      have others := length_le_byteCount cs
      rw [List.forall_mem_cons, ← ih, ← single, byteCount, List.length_cons]
      omega

/-- The encoding of a character, its first byte set apart. -/
theorem exists_utf8EncodeChar_cons (c : Char) :
    ∃ first rest, String.utf8EncodeChar c = first :: rest ∧ first.IsUTF8FirstByte ∧
      ∀ byte ∈ rest, ¬ byte.IsUTF8FirstByte := by
  cases encoded : String.utf8EncodeChar c with
  | nil => exact absurd encoded String.utf8EncodeChar_ne_nil
  | cons first rest =>
      refine ⟨first, rest, rfl, ?_, ?_⟩
      · have isFirst := UInt8.isUTF8FirstByte_getElem_zero_utf8EncodeChar (c := c)
        simpa only [encoded, List.getElem_cons_zero] using isFirst
      · intro byte inRest
        obtain ⟨place, inside, rfl⟩ := List.getElem_of_mem inRest
        have within : place + 1 < (String.utf8EncodeChar c).length := by
          rw [encoded, List.length_cons]
          omega
        have later := (@UInt8.isUTF8FirstByte_getElem_utf8EncodeChar c _ within).not.mpr
          (Nat.succ_ne_zero place)
        simpa only [encoded, List.getElem_cons_succ] using later

/-! ## The order of bytes -/

/-- The bytes of a lower character are lower, whatever follows. -/
theorem utf8EncodeChar_append_lt {c d : Char} (lower : c < d) (cs ds : List UInt8) :
    String.utf8EncodeChar c ++ cs < String.utf8EncodeChar d ++ ds := by
  have codes : c.val.toNat < d.val.toNat := lower
  have bounded : d.val.toNat < 1114112 := by
    have valid := d.valid
    simp only [UInt32.isValidChar, Nat.isValidChar] at valid
    omega
  -- Each byte holds one digit of the code point in base 64.
  have twoDigits (n : Nat) : n / 4096 = n / 64 / 64 := by omega
  have threeDigits (n : Nat) : n / 262144 = n / 64 / 64 / 64 := by omega
  unfold String.utf8EncodeChar
  dsimp only
  simp only [twoDigits, threeDigits]
  split_ifs <;>
    simp only [List.cons_append, List.nil_append, List.cons_lt_cons_iff, UInt8.lt_iff_toNat_lt,
      ← UInt8.toNat_inj, UInt8.toNat_ofNat'] <;>
    omega

theorem append_lt_append_iff (common first second : List UInt8) :
    common ++ first < common ++ second ↔ first < second := by
  induction common with
  | nil => rfl
  | cons byte common ih => rw [List.cons_append, List.cons_append, List.cons_lt_cons_self, ih]

/-- Texts have the order of their bytes. -/
theorem bytes_lt_iff : ∀ {first second : List Char}, bytes first < bytes second ↔ first < second
  | [], [] => by simp [bytes]
  | [], d :: ds => by
      obtain ⟨byte, rest, encoded, _⟩ := exists_utf8EncodeChar_cons d
      simp [bytes, encoded]
  | c :: cs, [] => by simp [bytes]
  | c :: cs, d :: ds => by
      rw [bytes_cons, bytes_cons, List.cons_lt_cons_iff]
      rcases lt_trichotomy c d with lower | rfl | higher
      · simp [utf8EncodeChar_append_lt lower, lower]
      · simp [append_lt_append_iff, bytes_lt_iff]
      · have notLower := List.lt_asymm (utf8EncodeChar_append_lt higher (bytes ds) (bytes cs))
        simp only [notLower, higher.asymm, higher.ne', false_and, or_false]

/-- A text is lower exactly when it has fewer bytes, or as many and lower ones. -/
theorem order_eq_lt_iff {left right : String} :
    order left right = .lt ↔
      (bytes left.toList).length < (bytes right.toList).length ∨
        (bytes left.toList).length = (bytes right.toList).length ∧
          bytes left.toList < bytes right.toList := by
  simp only [order, Ordering.then_eq_lt, compare_lt_iff_lt, compare_eq_iff_eq, length_bytes,
    byteCount_toList, bytes_lt_iff, ← String.lt_iff_toList_lt]

/-! ## Searching among bytes -/

theorem bytes_prefix_iff {part text : List Char} : bytes part <+: bytes text ↔ part <+: text := by
  constructor
  · rintro ⟨rest, together⟩
    apply List.isPrefix_of_utf8Encode_append_eq_utf8Encode rest.toByteArray
    rw [List.utf8Encode, List.utf8Encode, ← List.toByteArray_append]
    exact congrArg List.toByteArray together
  · rintro ⟨rest, rfl⟩
    exact ⟨bytes rest, (bytes_append part rest).symm⟩

/-- Inside the bytes of a character no text is found. -/
theorem not_prefix_inside {part : List Char} (nonempty : part ≠ []) {c : Char} {offset : Nat}
    (behind : 0 < offset) (inside : offset < (String.utf8EncodeChar c).length)
    (after : List UInt8) : ¬ bytes part <+: (String.utf8EncodeChar c ++ after).drop offset := by
  intro found
  obtain ⟨d, ds, rfl⟩ := List.exists_cons_of_ne_nil nonempty
  obtain ⟨first, rest, encoded, isFirst, _⟩ := exists_utf8EncodeChar_cons d
  rw [bytes_cons, encoded, List.drop_append_of_le_length inside.le,
    List.drop_eq_getElem_cons inside, List.cons_append, List.cons_append,
    List.cons_prefix_cons] at found
  rw [found.1, UInt8.isUTF8FirstByte_getElem_utf8EncodeChar] at isFirst
  exact behind.ne' isFirst

/-- Wherever the bytes of a text are found in another, its characters stand there. -/
theorem exists_of_prefix_drop_bytes {part : List Char} (nonempty : part ≠ []) :
    ∀ {text : List Char} {offset : Nat}, bytes part <+: (bytes text).drop offset →
      ∃ place, offset = byteCount (text.take place) ∧ part <+: text.drop place
  | text, 0, found => ⟨0, rfl, bytes_prefix_iff.mp found⟩
  | [], offset + 1, found => by
      have nothing : bytes part = [] := by simpa [bytes] using found
      have empty : part = [] := by
        rw [← List.prefix_nil, ← bytes_prefix_iff, nothing]
        exact List.nil_prefix
      exact absurd empty nonempty
  | c :: cs, offset + 1, found => by
      by_cases inside : offset + 1 < (String.utf8EncodeChar c).length
      · exact absurd found (not_prefix_inside nonempty (Nat.succ_pos offset) inside (bytes cs))
      · have beyond : (String.utf8EncodeChar c).length ≤ offset + 1 := Nat.le_of_not_lt inside
        rw [bytes_cons, List.drop_append, List.drop_eq_nil_of_le beyond, List.nil_append] at found
        obtain ⟨place, offsetEq, stands⟩ := exists_of_prefix_drop_bytes nonempty found
        refine ⟨place + 1, ?_, stands⟩
        rw [List.take_succ_cons, byteCount, ← offsetEq, ← String.length_utf8EncodeChar]
        omega

/-- The offset at which some bytes first occur in others. -/
def offset? (part text : List UInt8) : Option Nat :=
  text.tails.findIdx? part.isPrefixOf

/-- The number of characters that begin in some bytes. -/
def charactersBegun (text : List UInt8) : Nat :=
  text.countP fun byte => decide byte.IsUTF8FirstByte

/-- The position at which some bytes first occur in others, counted in
characters: the characters before the offset, and one. -/
def indexInBytes (text part : List UInt8) : Nat :=
  if part = [] then 0
  else match offset? part text with
    | some offset => charactersBegun (text.take offset) + 1
    | none => 0

/-- Every character of a text begins once. -/
theorem charactersBegun_bytes (cs : List Char) : charactersBegun (bytes cs) = cs.length := by
  induction cs with
  | nil => rfl
  | cons c cs ih =>
      obtain ⟨first, rest, encoded, isFirst, later⟩ := exists_utf8EncodeChar_cons c
      have noMore : rest.countP (fun byte => decide byte.IsUTF8FirstByte) = 0 := by
        simpa [List.countP_eq_zero] using later
      unfold charactersBegun at ih ⊢
      have once : (first :: rest).countP (fun byte => decide byte.IsUTF8FirstByte) = 1 := by
        rw [List.countP_cons_of_pos (by simpa using isFirst), noMore]
      rw [bytes_cons, List.countP_append, ih, encoded, once, List.length_cons]
      omega

/-! ## First occurrences -/

section

variable {α : Type} [BEq α] [LawfulBEq α] {part text : List α}

/-- The first place is the least from which the rest goes on as asked. -/
theorem findIdx?_tails_eq_some_iff {place : Nat} :
    text.tails.findIdx? part.isPrefixOf = some place ↔
      IsLeast {place | part <+: text.drop place} place := by
  rw [List.findIdx?_eq_some_iff_getElem]
  simp only [List.length_tails, List.getElem_tails, List.isPrefixOf_iff_prefix, exists_prop]
  constructor
  · rintro ⟨_, here, notBefore⟩
    exact ⟨here, fun other there => not_lt.mp fun earlier => notBefore other earlier there⟩
  · rintro ⟨here, least⟩
    refine ⟨?_, here, fun other earlier there => (least there).not_gt earlier⟩
    by_contra beyond
    -- Beyond the end there is no more to be found than at the end.
    have atEnd : part <+: text.drop text.length := by
      rw [Set.mem_ofPred_eq, List.drop_eq_nil_of_le (by omega)] at here
      rwa [List.drop_length]
    have reached : place ≤ text.length := least atEnd
    omega

theorem findIdx?_tails_eq_none_iff :
    text.tails.findIdx? part.isPrefixOf = none ↔ {place | part <+: text.drop place} = ∅ := by
  rw [List.findIdx?_eq_none_iff, Set.eq_empty_iff_forall_notMem]
  simp only [List.mem_tails, ← Bool.not_eq_true, List.isPrefixOf_iff_prefix]
  constructor
  · intro nowhere place here
    exact nowhere _ (List.drop_suffix place text) here
  · rintro nowhere _ ⟨before, rfl⟩ here
    exact nowhere before.length (by simpa using here)

end

/-- The first occurrence is the first place from which the text goes on as asked. -/
theorem occurrence?_eq_findIdx? (part text : List Char) :
    occurrence? part text = text.tails.findIdx? part.isPrefixOf := by
  induction text with
  | nil => simp [occurrence?, List.findIdx?_cons]
  | cons c cs ih => rw [occurrence?, ih, List.tails_cons, List.findIdx?_cons]

theorem bytes_split (text : List Char) (place : Nat) :
    (bytes text).take (byteCount (text.take place)) = bytes (text.take place) ∧
      (bytes text).drop (byteCount (text.take place)) = bytes (text.drop place) := by
  have whole : bytes text = bytes (text.take place) ++ bytes (text.drop place) := by
    rw [← bytes_append, List.take_append_drop]
  rw [whole, ← length_bytes, List.take_left, List.drop_left]
  exact ⟨rfl, rfl⟩

theorem byteCount_take_mono (text : List Char) {first second : Nat} (le : first ≤ second) :
    byteCount (text.take first) ≤ byteCount (text.take second) := by
  obtain ⟨between, split⟩ := List.take_prefix_take_left (l := text) le
  rw [← split, byteCount_append]
  exact Nat.le_add_right _ _

/-- The bytes of a text first occur where its characters do. -/
theorem isLeast_offset {part text : List Char} (nonempty : part ≠ []) {place : Nat}
    (first : IsLeast {place | part <+: text.drop place} place) :
    IsLeast {offset | bytes part <+: (bytes text).drop offset} (byteCount (text.take place)) := by
  constructor
  · rw [Set.mem_ofPred_eq, (bytes_split text place).2]
    exact bytes_prefix_iff.mpr first.1
  · intro offset found
    obtain ⟨other, rfl, there⟩ := exists_of_prefix_drop_bytes nonempty found
    exact byteCount_take_mono text (first.2 there)

/-- A position is the same whether it is searched among characters or among bytes. -/
theorem index_eq_indexInBytes (text part : String) :
    index text part = indexInBytes (bytes text.toList) (bytes part.toList) := by
  by_cases empty : part = ""
  · subst empty
    rfl
  have nonempty : part.toList ≠ [] := by simpa using empty
  have someBytes : bytes part.toList ≠ [] := by
    rw [← List.length_pos_iff, length_bytes]
    exact byteCount_pos nonempty
  rw [index, indexInBytes, if_neg (by simpa using empty), if_neg someBytes, offset?,
    occurrence?_eq_findIdx?]
  cases found : text.toList.tails.findIdx? part.toList.isPrefixOf with
  | none =>
      have nowhere := findIdx?_tails_eq_none_iff.mp found
      have noOffset : {offset | bytes part.toList <+: (bytes text.toList).drop offset} = ∅ := by
        apply Set.eq_empty_iff_forall_notMem.mpr
        intro offset there
        obtain ⟨place, _, here⟩ := exists_of_prefix_drop_bytes nonempty there
        exact Set.eq_empty_iff_forall_notMem.mp nowhere place here
      rw [findIdx?_tails_eq_none_iff.mpr noOffset]
  | some place =>
      have first := findIdx?_tails_eq_some_iff.mp found
      have inside : place ≤ text.toList.length := by
        rw [List.findIdx?_eq_some_iff_findIdx_eq, List.length_tails] at found
        omega
      have offsetFound := findIdx?_tails_eq_some_iff.mpr (isLeast_offset nonempty first)
      simp only [offsetFound, (bytes_split text.toList place).1, charactersBegun_bytes,
        List.length_take, min_eq_left inside]

-- The two characters in front take three bytes.
example : indexInBytes (bytes ['a', 'é', 'b']) (bytes ['b']) = 3 := by decide

end ConditionalAssembly.Text
