import ConditionalAssembly.Proofs.Range.Sequence
import ConditionalAssembly.Proofs.Text.Bytes
import ConditionalAssembly.Proofs.Token.Longest

/-!
# Cutting a text into its longest tokens

At each place of a text the longest spelling of any kind of token is cut off,
and blanks are skipped.  A text gets stuck where nothing is spelled, where a
number is too great, and where a string is open that no quote closes.

The tokens of a source are the spellings that are cut off in this way, and a
source without tokens gets stuck.
-/

namespace ConditionalAssembly.Token

open ConditionalAssembly.Text

/-- From an offset on, tokens are cut off from the front of a text until, at another offset,
some of the text is left. -/
inductive Cuts : Nat → List Char → List PlacedToken → Nat → List Char → Prop where
  | done {offset : Nat} {cs : List Char} : Cuts offset cs [] offset cs
  | blank {offset stop : Nat} {c : Char} {cs left : List Char} {tokens : List PlacedToken} :
      isSkipped c → Cuts (offset + c.utf8Size) cs tokens stop left →
      Cuts offset (c :: cs) tokens stop left
  | token {offset stop : Nat} {pattern : Pattern} {spelling cs left : List Char} {token : Token}
      {tokens : List PlacedToken} :
      ¬ IsOpen (spelling ++ cs) → pattern.IsLongest spelling (spelling ++ cs) →
      pattern.token? spelling = some token →
      Cuts (offset + byteCount spelling) cs tokens stop left →
      Cuts offset (spelling ++ cs) (⟨token, offset, offset + byteCount spelling⟩ :: tokens) stop left

/-! ## One way to go on -/

section

variable {pattern : Pattern} {spelling cs : List Char}

/-- Nothing is cut off from a text that is stuck. -/
theorem Stuck.not_cut (stuck : Stuck cs) (notOpen : ¬ IsOpen cs)
    (longest : pattern.IsLongest spelling cs) : pattern.token? spelling = none := by
  cases stuck with
  | unmatched _ missing => exact absurd longest.front (missing pattern spelling longest.spelled)
  | tooGreat digits exceeds =>
      obtain ⟨rfl, rfl⟩ := digits.unique longest
      exact if_neg (Nat.not_le_of_lt exceeds)
  | unclosed isOpen => exact absurd isOpen notOpen

/-- Nothing is skipped in front of a text that is stuck. -/
theorem Stuck.isSkipped_eq_false {c : Char} (stuck : Stuck (c :: cs)) : isSkipped c = false := by
  rw [Bool.eq_false_iff]
  intro skipped
  cases stuck with
  | unmatched shown _ => exact absurd skipped (by simp [shown])
  | tooGreat digits _ =>
      have starts := digits.mem_startingWith
      rw [Pattern.startingWith_of_isSkipped skipped] at starts
      cases starts
  | unclosed isOpen =>
      refine not_isOpen ?_ cs isOpen
      rintro rfl
      exact absurd skipped (by decide)

theorem Stuck.exists_cons (stuck : Stuck cs) : ∃ c rest, cs = c :: rest := by
  cases stuck with
  | unmatched => exact ⟨_, _, rfl⟩
  | tooGreat digits _ =>
      obtain ⟨c, _, rfl, _⟩ := Pattern.exists_start digits.spelled
      obtain ⟨rest, rfl⟩ := digits.front
      exact ⟨c, _, rfl⟩
  | unclosed isOpen =>
      obtain ⟨text, _, rfl⟩ := isOpen_iff.mp isOpen
      exact ⟨_, text, rfl⟩

/-- What stands at the front of a text that is stuck is unreadable. -/
theorem Stuck.exists_unreadable (stuck : Stuck cs) :
    ∃ c rest text, cs = c :: rest ∧ scan c rest = .unreadable text := by
  obtain ⟨c, rest, rfl⟩ := stuck.exists_cons
  have described := describes_scan c rest
  cases scanned : scan c rest with
  | blank =>
      rw [scanned] at described
      obtain ⟨_, _, ⟨⟩, skipped⟩ := described
      exact absurd skipped (by simp [stuck.isSkipped_eq_false])
  | token found spelling behind =>
      rw [scanned] at described
      obtain ⟨_, notOpen, pattern, longest, held⟩ := described
      cases (stuck.not_cut notOpen longest).symm.trans held
  | unreadable text => exact ⟨c, rest, text, rfl, scanned⟩

/-- A text that is stuck has no tokens. -/
theorem Stuck.listFrom (stuck : Stuck cs) (offset : Nat) :
    ∃ cause, Token.listFrom offset cs = .error ⟨cause, offset + 1⟩ := by
  obtain ⟨c, rest, text, rfl, scanned⟩ := stuck.exists_unreadable
  exact ⟨_, listFrom_unreadable scanned offset⟩

/-- The longest spelling at the front of a text is the first token. -/
theorem listFrom_of_isLongest {found : Token} (notOpen : ¬ IsOpen (spelling ++ cs))
    (longest : pattern.IsLongest spelling (spelling ++ cs))
    (held : pattern.token? spelling = some found) (offset : Nat) :
    listFrom offset (spelling ++ cs) =
      (⟨found, offset, offset + byteCount spelling⟩ :: ·) <$>
        listFrom (offset + byteCount spelling) cs := by
  obtain ⟨c, more, rfl, starts⟩ := Pattern.exists_start longest.spelled
  have described := describes_scan c (more ++ cs)
  rw [← List.cons_append] at described
  cases scanned : scan c (more ++ cs) with
  | blank =>
      rw [scanned] at described
      obtain ⟨_, _, ⟨⟩, skipped⟩ := described
      rw [Pattern.startingWith_of_isSkipped skipped] at starts
      cases starts
  | token other longer behind =>
      rw [scanned] at described
      obtain ⟨whole, _, kind, longestToo, heldToo⟩ := described
      obtain ⟨rfl, rfl⟩ := longest.unique longestToo
      cases held.symm.trans heldToo
      cases List.append_cancel_left whole
      exact listFrom_token scanned offset
  | unreadable text =>
      rw [scanned] at described
      have stuck : Stuck _ := described
      cases (stuck.not_cut notOpen longest).symm.trans held

end

theorem listFrom_of_isSkipped {c : Char} (skipped : isSkipped c) (cs : List Char) (offset : Nat) :
    listFrom offset (c :: cs) = listFrom (offset + c.utf8Size) cs :=
  listFrom_blank (by simp [scan, skipped]) offset

namespace Cuts

variable {offset stop : Nat} {cs left : List Char} {tokens : List PlacedToken}

theorem listFrom_eq (cuts : Cuts offset cs tokens stop left) :
    listFrom offset cs = (tokens ++ ·) <$> listFrom stop left := by
  induction cuts with
  | @done offset cs => cases listFrom offset cs <;> rfl
  | blank skipped _ ih => rw [listFrom_of_isSkipped skipped, ih]
  | @token _ stop _ _ _ left _ _ notOpen longest held _ ih =>
      rw [listFrom_of_isLongest notOpen longest held, ih]
      cases listFrom stop left <;> rfl

/-- What is cut off is the front of the text. -/
theorem exists_front (cuts : Cuts offset cs tokens stop left) :
    ∃ front, cs = front ++ left ∧ stop = offset + byteCount front := by
  induction cuts with
  | done => exact ⟨[], rfl, rfl⟩
  | @blank _ _ c _ _ _ _ _ ih =>
      obtain ⟨front, rfl, rfl⟩ := ih
      exact ⟨c :: front, rfl, Nat.add_assoc _ _ _⟩
  | @token _ _ _ spelling _ _ _ _ _ _ _ _ ih =>
      obtain ⟨front, rfl, rfl⟩ := ih
      refine ⟨spelling ++ front, (List.append_assoc _ _ _).symm, ?_⟩
      rw [byteCount_append, Nat.add_assoc]

/-- What is cut off and what is left are as long as the text. -/
theorem offset_add (cuts : Cuts offset cs tokens stop left) :
    offset + byteCount cs = stop + byteCount left := by
  obtain ⟨front, rfl, rfl⟩ := cuts.exists_front
  rw [byteCount_append, Nat.add_assoc]

/-- The tokens stand one behind the other in what is cut off. -/
theorem inSequence (cuts : Cuts offset cs tokens stop left) :
    Range.InSequence offset stop (tokens.map fun placed => .columns placed.start placed.stop) := by
  induction cuts with
  | done => exact .nil (Nat.le_refl _)
  | blank _ _ ih => exact ih.mono (Nat.le_add_right _ _) (Nat.le_refl _)
  | token _ longest _ _ ih =>
      obtain ⟨c, more, rfl, _⟩ := Pattern.exists_start longest.spelled
      have occupied := byteCount_pos (List.cons_ne_nil c more)
      exact .cons (Nat.le_refl _) (Nat.lt_add_of_pos_right occupied) ih

end Cuts

/-- Tokens can be cut off until nothing is left or the text is stuck. -/
theorem exists_cuts (offset : Nat) (cs : List Char) :
    ∃ tokens stop left, Cuts offset cs tokens stop left ∧ (left = [] ∨ Stuck left) := by
  fun_induction listFrom offset cs with
  | case1 offset => exact ⟨[], offset, [], .done, .inl rfl⟩
  | case2 offset c cs scanned ih =>
      obtain ⟨tokens, stop, left, cuts, ends⟩ := ih
      have described := describes_scan c cs
      rw [scanned] at described
      obtain ⟨_, _, ⟨⟩, skipped⟩ := described
      exact ⟨tokens, stop, left, .blank skipped cuts, ends⟩
  | case3 offset c cs found spelling rest scanned ih =>
      obtain ⟨tokens, stop, left, cuts, ends⟩ := ih
      have described := describes_scan c cs
      rw [scanned] at described
      obtain ⟨whole, notOpen, pattern, longest, held⟩ := described
      rw [← whole] at notOpen longest ⊢
      exact ⟨_, stop, left, .token notOpen longest held cuts, ends⟩
  | case4 offset c cs text scanned =>
      have described := describes_scan c cs
      rw [scanned] at described
      exact ⟨[], offset, c :: cs, .done, .inr described⟩

/-! ## Bytes -/

/-- The bytes that may stand between tokens: space, tab, carriage return, line feed and form
feed. -/
def skippedBytes : List UInt8 :=
  [0x20, 0x09, 0x0d, 0x0a, 0x0c]

theorem mem_skippedBytes {c : Char} (skipped : isSkipped c) :
    ∀ byte ∈ bytes [c], byte ∈ skippedBytes := by
  simp only [isSkipped, Bool.or_eq_true, beq_iff_eq] at skipped
  rcases skipped with (((rfl | rfl) | rfl) | rfl) | rfl <;>
    simp [bytes, String.utf8EncodeChar, skippedBytes]

namespace Cuts

variable {offset stop : Nat} {cs left : List Char} {tokens : List PlacedToken}

/-- What is cut off besides the tokens are bytes that are skipped. -/
theorem gaps (cuts : Cuts offset cs tokens stop left) {index : Nat} {byte : UInt8}
    (isByte : (bytes cs)[index]? = some byte) (inside : offset + index < stop)
    (uncovered : ∀ placed ∈ tokens, ¬ (placed.start ≤ offset + index ∧ offset + index < placed.stop)) :
    byte ∈ skippedBytes := by
  induction cuts generalizing index with
  | done => omega
  | @blank offset _ c cs _ _ skipped _ ih =>
      rw [← List.singleton_append, bytes_append, List.getElem?_append, length_bytes] at isByte
      have size : byteCount [c] = c.utf8Size := Nat.add_zero _
      split at isByte
      next => exact mem_skippedBytes skipped byte (List.mem_of_getElem? isByte)
      next behind =>
        have place : offset + c.utf8Size + (index - byteCount [c]) = offset + index := by omega
        exact ih isByte (by omega) (by simpa only [place] using uncovered)
  | @token offset _ _ spelling cs _ _ _ _ _ _ _ ih =>
      obtain ⟨first, others⟩ := List.forall_mem_cons.mp uncovered
      rw [bytes_append, List.getElem?_append, length_bytes] at isByte
      split at isByte
      next within =>
        exact absurd ⟨Nat.le_add_right _ _, Nat.add_lt_add_left within offset⟩ first
      next behind =>
        have place : offset + byteCount spelling + (index - byteCount spelling) = offset + index := by
          omega
        exact ih isByte (by omega) (by simpa only [place] using others)

/-- Each token is the longest spelling where it stands. -/
theorem spelled (cuts : Cuts offset cs tokens stop left) {placed : PlacedToken}
    (isToken : placed ∈ tokens) :
    ∃ before spelling behind pattern, cs = before ++ (spelling ++ behind) ∧
      placed.start = offset + byteCount before ∧ placed.stop = placed.start + byteCount spelling ∧
      Pattern.IsLongest pattern spelling (spelling ++ behind) ∧
      pattern.token? spelling = some placed.token := by
  induction cuts with
  | done => cases isToken
  | @blank offset _ c cs _ _ _ _ ih =>
      obtain ⟨before, spelling, behind, pattern, rfl, start, stop, longest, held⟩ := ih isToken
      exact ⟨c :: before, spelling, behind, pattern, rfl, by rw [start, byteCount, Nat.add_assoc],
        stop, longest, held⟩
  | @token offset _ pattern first cs _ _ _ _ longest held _ ih =>
      rcases List.mem_cons.mp isToken with rfl | further
      · exact ⟨[], first, cs, pattern, rfl, rfl, rfl, longest, held⟩
      · obtain ⟨before, spelling, behind, kind, rfl, start, stop, longestToo, heldToo⟩ := ih further
        refine ⟨first ++ before, spelling, behind, kind, (List.append_assoc _ _ _).symm, ?_,
          stop, longestToo, heldToo⟩
        rw [start, byteCount_append, Nat.add_assoc]

end Cuts

/-- A spelling alone is one token. -/
theorem listOf_spelling {pattern : Pattern} {spelling : List Char} {found : Token}
    (spelled : spelling ∈ pattern.language) (held : pattern.token? spelling = some found) :
    listOf (String.ofList spelling) = .ok [⟨found, 0, byteCount spelling⟩] := by
  have whole := List.append_nil spelling
  have notOpen : ¬ IsOpen (spelling ++ []) := by
    rw [whole]
    exact Pattern.not_isOpen_of_mem spelled
  have longest : pattern.IsLongest spelling (spelling ++ []) := by
    rw [whole]
    exact Pattern.IsLongest.alone spelled
  have first := listFrom_of_isLongest notOpen longest held 0
  rw [whole, listFrom_nil, Nat.zero_add] at first
  rw [listOf, String.toList_ofList, first]
  rfl

/-! ## The tokens of a source -/

/-- Tokens take a source apart. -/
structure Partitions (source : String) (tokens : List PlacedToken) : Prop where
  nonempty : ∀ placed ∈ tokens, placed.start < placed.stop
  ordered : tokens.Pairwise fun earlier later => earlier.stop ≤ later.start
  inside : ∀ placed ∈ tokens, placed.stop ≤ source.utf8ByteSize
  /-- No byte outside the tokens is anything but skipped. -/
  gaps : ∀ (index : Nat) (inside : index < source.toByteArray.size),
    (∀ placed ∈ tokens, ¬ (placed.start ≤ index ∧ index < placed.stop)) →
    source.toByteArray[index] ∈ skippedBytes
  /-- Each token is the longest spelling where it stands, holds what this spelling makes it hold,
  and is the one token of the spelling alone. -/
  spelled : ∀ placed ∈ tokens, ∃ before spelling behind pattern,
    source.toList = before ++ (spelling ++ behind) ∧ placed.start = byteCount before ∧
      placed.stop = placed.start + byteCount spelling ∧
      Pattern.IsLongest pattern spelling (spelling ++ behind) ∧
      pattern.token? spelling = some placed.token ∧
      listOf (String.ofList spelling) = .ok [⟨placed.token, 0, byteCount spelling⟩]

section

variable {source : String} {tokens : List PlacedToken}

/-- The tokens of a source are those that are cut off until nothing is left. -/
theorem listOf_eq_ok_iff :
    listOf source = .ok tokens ↔ Cuts 0 source.toList tokens source.utf8ByteSize [] := by
  constructor
  · intro listed
    obtain ⟨others, stop, left, cuts, ends⟩ := exists_cuts 0 source.toList
    have whole := cuts.listFrom_eq
    rw [← listOf, listed] at whole
    rcases ends with rfl | stuck
    · rw [listFrom_nil] at whole
      have size := cuts.offset_add
      rw [Nat.zero_add, byteCount_toList] at size
      have same : tokens = others := by simpa using Except.ok.inj whole
      rw [same, size]
      exact cuts
    · obtain ⟨cause, refused⟩ := stuck.listFrom stop
      rw [refused] at whole
      cases whole
  · intro cuts
    rw [listOf, cuts.listFrom_eq, listFrom_nil]
    exact congrArg Except.ok (List.append_nil tokens)

/-- A source without tokens gets stuck. -/
theorem listOf_eq_error_iff {column : Nat} :
    (∃ cause, listOf source = .error ⟨cause, column⟩) ↔
      ∃ tokens stop left, Cuts 0 source.toList tokens stop left ∧ Stuck left ∧
        column = stop + 1 := by
  constructor
  · rintro ⟨cause, refused⟩
    obtain ⟨tokens, stop, left, cuts, ends⟩ := exists_cuts 0 source.toList
    have whole := cuts.listFrom_eq
    rw [← listOf, refused] at whole
    rcases ends with rfl | stuck
    · rw [listFrom_nil] at whole
      cases whole
    · obtain ⟨cause, refusedThere⟩ := stuck.listFrom stop
      rw [refusedThere] at whole
      cases whole
      exact ⟨tokens, stop, left, cuts, stuck, rfl⟩
  · rintro ⟨tokens, stop, left, cuts, stuck, rfl⟩
    obtain ⟨cause, refused⟩ := stuck.listFrom stop
    exact ⟨cause, by rw [listOf, cuts.listFrom_eq, refused]; rfl⟩

/-- Tokens that are cut off until nothing is left take the source apart. -/
theorem Cuts.partitions (cuts : Cuts 0 source.toList tokens source.utf8ByteSize []) :
    Partitions source tokens where
  nonempty placed isToken := by
    have between := cuts.inSequence.between (List.mem_map_of_mem isToken)
    obtain ⟨start, stop, ⟨⟩, _, nonempty, _⟩ := between
    exact nonempty
  ordered := List.pairwise_map.mp cuts.inSequence.pairwise
  inside placed isToken := by
    have between := cuts.inSequence.between (List.mem_map_of_mem isToken)
    obtain ⟨start, stop, ⟨⟩, _, _, inside⟩ := between
    exact inside
  gaps index inside uncovered := by
    have isByte : (bytes source.toList)[index]? = some source.toByteArray[index] := by
      simp only [← toByteArray_bytes source, List.getElem_toByteArray]
      exact List.getElem?_eq_getElem _
    exact cuts.gaps isByte (by simpa using inside) (by simpa using uncovered)
  spelled placed isToken := by
    obtain ⟨before, spelling, behind, pattern, whole, start, stop, longest, held⟩ :=
      cuts.spelled isToken
    exact ⟨before, spelling, behind, pattern, whole, by rw [start, Nat.zero_add], stop, longest,
      held, listOf_spelling longest.spelled held⟩

end

/-- The tokens of a source are the longest spellings that are cut off from it one by one, and they
take it apart; where this gets stuck, the source has no tokens. -/
theorem listOf_partitions (source : String) :
    (∀ tokens, listOf source = .ok tokens ↔
      Cuts 0 source.toList tokens source.utf8ByteSize []) ∧
    (∀ tokens, listOf source = .ok tokens → Partitions source tokens) ∧
    (∀ column, (∃ cause, listOf source = .error ⟨cause, column⟩) ↔
      ∃ tokens stop left, Cuts 0 source.toList tokens stop left ∧ Stuck left ∧
        column = stop + 1) :=
  ⟨fun _ => listOf_eq_ok_iff, fun _ listed => (listOf_eq_ok_iff.mp listed).partitions,
    fun _ => listOf_eq_error_iff⟩

/-- The tokens of `A'B''C' l'D`. -/
def quotesAfterLetters : List PlacedToken :=
  [⟨.identifier "A", 0, 1⟩, ⟨.string "B''C", 1, 7⟩, ⟨.attributeOf .length false "D", 8, 11⟩]

/-- A letter and a quote end a name and open a string, or else start an attribute. -/
theorem listOf_partitions_quotesAfterLetters :
    listOf "A'B''C' l'D" = .ok quotesAfterLetters ∧
      Cuts 0 "A'B''C' l'D".toList quotesAfterLetters "A'B''C' l'D".utf8ByteSize [] ∧
      Partitions "A'B''C' l'D" quotesAfterLetters := by
  have listed : listOf "A'B''C' l'D" = .ok quotesAfterLetters := by cbv
  have takenApart := listOf_partitions "A'B''C' l'D"
  exact ⟨listed, (takenApart.1 _).mp listed, takenApart.2.1 _ listed⟩

end ConditionalAssembly.Token
