import ConditionalAssembly.Proofs.Expr.Stopping
import ConditionalAssembly.Proofs.Token.Partition

/-!
# Where a source is refused

A source without tokens is refused at the text that spells none.  Otherwise it
is refused at the first token with which no list of fragments begins, or behind
its end, when all of its tokens begin one.  The column zero is never the answer.
-/

namespace ConditionalAssembly

/-! ## Text that spells no token -/

namespace Token

open ConditionalAssembly.Text

/-- Text that is unreadable stands at the front. -/
def Scan.RefusesFront (cs : List Char) : Scan → Prop
  | .unreadable text => text <+: cs ∧ text ≠ []
  | _ => True

theorem refusesFront_scanVariable (cs : List Char) :
    (scanVariable cs).RefusesFront ('&' :: cs) := by
  have ampersand : ['&'] <+: '&' :: cs ∧ ['&'] ≠ [] :=
    ⟨List.prefix_append ['&'] cs, List.cons_ne_nil _ _⟩
  unfold scanVariable
  split
  next => trivial
  next =>
    split
    · trivial
    · exact ampersand
  next => exact ampersand

theorem refusesFront_scanWord (c : Char) (cs : List Char) :
    (scanWord c cs).RefusesFront (c :: cs) := by
  unfold scanWord
  split
  next => split <;> trivial
  next => split <;> trivial
  next => trivial

/-- Text is refused where it stands. -/
theorem refusesFront_scan (c : Char) (cs : List Char) : (scan c cs).RefusesFront (c :: cs) := by
  unfold scan
  split
  next => trivial
  next =>
    split
    next digit =>
      unfold scanNumber
      dsimp only
      split
      · trivial
      · exact ⟨List.takeWhile_prefix _, by simp [digit]⟩
    next =>
      split
      next quote =>
        subst quote
        unfold scanString
        split
        · trivial
        · exact ⟨List.prefix_refl _, List.cons_ne_nil _ _⟩
      next =>
        split
        next ampersand =>
          subst ampersand
          exact refusesFront_scanVariable cs
        next =>
          split
          next => exact refusesFront_scanWord c cs
          next =>
            split
            · trivial
            · exact ⟨List.prefix_append [c] cs, List.cons_ne_nil _ _⟩

/-- A source without tokens is refused at the text where it is stuck. -/
theorem listOf_eq_error {source : String} {error : ReadError}
    (refused : listOf source = .error error) :
    ∃ tokens before text behind, source.toList = before ++ (text ++ behind) ∧
      Cuts 0 source.toList tokens (byteCount before) (text ++ behind) ∧ Stuck (text ++ behind) ∧
      text ≠ [] ∧ error = ⟨.invalidInput (String.ofList text), byteCount before + 1⟩ := by
  obtain ⟨cause, column⟩ := error
  obtain ⟨tokens, stop, left, cuts, stuck, -⟩ := listOf_eq_error_iff.mp ⟨cause, refused⟩
  obtain ⟨before, whole, rfl⟩ := cuts.exists_front
  obtain ⟨c, rest, text, isLeft, scanned⟩ := stuck.exists_unreadable
  have front := refusesFront_scan c rest
  rw [scanned, ← isLeft] at front
  obtain ⟨⟨behind, rfl⟩, nonempty⟩ := front
  rw [Nat.zero_add] at cuts
  refine ⟨tokens, before, text, behind, whole, cuts, stuck, nonempty, ?_⟩
  have unreadable := listFrom_unreadable scanned (byteCount before)
  rw [listOf, cuts.listFrom_eq, isLeft, unreadable] at refused
  exact (Except.error.inj refused).symm

end Token

/-! ## Where reading stops -/

open Grammar Text

/-- A source is refused with the error of its text, or with that of its tokens. -/
theorem Expr.read_eq_error {source : String} {error : ReadError}
    (refused : Expr.read source = .error error) :
    Token.listOf source = .error error ∨
      ∃ tokens stopped, Token.listOf source = .ok tokens ∧
        Reader.readSource (.ofTokens tokens) = .error stopped ∧
        error = stopped.atInputEnd source.utf8ByteSize := by
  unfold Expr.read at refused
  cases listed : Token.listOf source with
  | error unlisted =>
      rw [listed] at refused
      cases refused
      exact .inl rfl
  | ok tokens =>
      rw [listed] at refused
      change Except.bind (.ok tokens) _ = _ at refused
      simp only [Except.bind] at refused
      split at refused
      next => cases refused
      next stopped reading =>
        cases refused
        exact .inr ⟨tokens, stopped, rfl, reading, rfl⟩

theorem ReadError.atEnd_iff {cause : ReadError.Cause} :
    cause.atEnd ↔ cause = .expectedClosingParen ∨ cause = .unexpectedEnd := by
  cases cause <;> simp [Cause.atEnd]

/-- Tokens that are refused are refused behind their end when they begin a list of fragments, and
otherwise at the first token with which none begins. -/
theorem column_of_refused_tokens {source : String} {tokens : List PlacedToken}
    {stopped : ReadError} (listed : Token.listOf source = .ok tokens)
    (reading : Reader.readSource (.ofTokens tokens) = .error stopped) :
    let error := stopped.atInputEnd source.utf8ByteSize
    (1 ≤ error.column ∧ error.column ≤ source.utf8ByteSize + 1) ∧
      (Begins tokens ↔ error.column = source.utf8ByteSize + 1 ∧
        (error.cause = .expectedClosingParen ∨ error.cause = .unexpectedEnd)) ∧
      (¬ Begins tokens → ∃ before placed after, tokens = before ++ placed :: after ∧
        Begins before ∧ ¬ Begins (before ++ [placed]) ∧ error.column = placed.start + 1) := by
  intro error
  rcases Reader.readSource_error reading with
    ⟨begins, column, atEnd⟩ | ⟨before, placed, after, split, begins, stuck, column⟩
  · have patched : error = ⟨stopped.cause, source.utf8ByteSize + 1⟩ := if_pos ⟨column, atEnd⟩
    rw [patched]
    exact ⟨⟨Nat.succ_pos _, Nat.le_refl _⟩,
      ⟨fun _ => ⟨rfl, ReadError.atEnd_iff.mp atEnd⟩, fun _ => begins⟩, (absurd begins ·)⟩
  · have kept : error = stopped := if_neg fun atColumnZero => by simp [column] at atColumnZero
    have inside : placed.start < source.utf8ByteSize := by
      have takenApart := (Token.listOf_eq_ok_iff.mp listed).partitions
      have isToken : placed ∈ tokens := by simp [split]
      exact Nat.lt_of_lt_of_le (takenApart.nonempty placed isToken)
        (takenApart.inside placed isToken)
    have beginsNone : ¬ Begins tokens := by
      intro beginsAll
      rw [split, List.append_cons] at beginsAll
      exact stuck beginsAll.of_append
    rw [kept, column]
    refine ⟨⟨Nat.succ_pos _, by omega⟩, ⟨(absurd · beginsNone), ?_⟩,
      fun _ => ⟨before, placed, after, split, begins, stuck, rfl⟩⟩
    rintro ⟨behindEnd, -⟩
    omega

/-- The column of a source that is refused is one of its columns, or the one behind its end.  If the
source has tokens, it is the one behind the end, with the cause that the text has ended, exactly
when the tokens begin a list of fragments.  If they begin none, it is where the first token stands
with which none begins.  If the source has no tokens, it is where the text stands that spells
none. -/
theorem column_of_refused_source {source : String} {error : ReadError}
    (refused : Expr.read source = .error error) :
    (1 ≤ error.column ∧ error.column ≤ source.utf8ByteSize + 1) ∧
    (∀ tokens, Token.listOf source = .ok tokens →
      (Begins tokens ↔ error.column = source.utf8ByteSize + 1 ∧
        (error.cause = .expectedClosingParen ∨ error.cause = .unexpectedEnd)) ∧
      (¬ Begins tokens → ∃ before placed after, tokens = before ++ placed :: after ∧
        Begins before ∧ ¬ Begins (before ++ [placed]) ∧ error.column = placed.start + 1)) ∧
    (∀ unlisted, Token.listOf source = .error unlisted →
      error = unlisted ∧ ∃ tokens before text behind,
        source.toList = before ++ (text ++ behind) ∧
          Token.Cuts 0 source.toList tokens (byteCount before) (text ++ behind) ∧
          Token.Stuck (text ++ behind) ∧ text ≠ [] ∧
          error = ⟨.invalidInput (String.ofList text), byteCount before + 1⟩) := by
  rcases Expr.read_eq_error refused with unlisted | ⟨tokens, stopped, listed, reading, rfl⟩
  · obtain ⟨cut, before, text, behind, whole, cuts, stuck, nonempty, rfl⟩ :=
      Token.listOf_eq_error unlisted
    have size : byteCount before ≤ source.utf8ByteSize := by
      rw [← byteCount_toList, whole, byteCount_append]
      exact Nat.le_add_right _ _
    refine ⟨⟨Nat.succ_pos _, Nat.succ_le_succ size⟩, ?_, ?_⟩
    · intro tokens listed
      cases unlisted.symm.trans listed
    · intro other again
      cases unlisted.symm.trans again
      exact ⟨rfl, cut, before, text, behind, whole, cuts, stuck, nonempty, rfl⟩
  · obtain ⟨bounds, stops⟩ := column_of_refused_tokens listed reading
    refine ⟨bounds, ?_, ?_⟩
    · intro others same
      cases listed.symm.trans same
      exact stops
    · intro unlisted isUnlisted
      cases listed.symm.trans isUnlisted

/-- Reading comes to the end of `(1` and stops at the comma in `(1,2)`, in the same column and for
the same cause. -/
theorem column_of_refused_source_list :
    let front : List PlacedToken := [⟨.openParen, 0, 1⟩, ⟨.integer 1, 1, 2⟩]
    let rest : List PlacedToken := [⟨.comma, 2, 3⟩, ⟨.integer 2, 3, 4⟩, ⟨.closeParen, 4, 5⟩]
    (Expr.read "(1" = .error ⟨.expectedClosingParen, 3⟩ ∧
      Token.listOf "(1" = .ok front ∧ Begins front) ∧
    (Expr.read "(1,2)" = .error ⟨.expectedClosingParen, 3⟩ ∧
      Token.listOf "(1,2)" = .ok (front ++ rest) ∧ ¬ Begins (front ++ rest)) := by
  intro front rest
  have ranOut : Expr.read "(1" = .error ⟨.expectedClosingParen, 3⟩ := by cbv
  have listed : Token.listOf "(1" = .ok front := by cbv
  have stopped : Expr.read "(1,2)" = .error ⟨.expectedClosingParen, 3⟩ := by cbv
  have listedToo : Token.listOf "(1,2)" = .ok (front ++ rest) := by cbv
  have begins := ((column_of_refused_source ranOut).2.1 _ listed).1
  have beginsToo := ((column_of_refused_source stopped).2.1 _ listedToo).1
  refine ⟨⟨ranOut, listed, begins.mpr ⟨rfl, .inl rfl⟩⟩, stopped, listedToo, ?_⟩
  intro beginsAll
  exact absurd (beginsToo.mp beginsAll).1 (by decide)

end ConditionalAssembly
