import ConditionalAssembly.Proofs.Token.Arrangement

/-!
# Groups that are not closed

A group stays open only when the tokens have run out.  So nothing follows a
group that is not closed, neither behind it nor behind the groups it stands in.
-/

namespace ConditionalAssembly

mutual

/-- Every group of a run is closed. -/
def Run.Closed : Run → Prop
  | .nil => True
  | .token _ rest => rest.Closed
  | .group _ contents rest => contents.Closed ∧ rest.Closed

/-- A parenthesis closes the contents, and every group in them is closed. -/
def Contents.Closed : Contents → Prop
  | .last run close => run.Closed ∧ close.isSome
  | .comma run _ rest => run.Closed ∧ rest.Closed

end

mutual

/-- Nothing follows a group of a run that is not closed. -/
def Run.OpenAtEnd : Run → Prop
  | .nil => True
  | .token _ rest => rest.OpenAtEnd
  | .group _ contents rest =>
      contents.OpenAtEnd ∧ rest.OpenAtEnd ∧ (contents.Closed ∨ rest = .nil)

/-- Nothing follows a group that is not closed, neither a comma nor the closing parenthesis. -/
def Contents.OpenAtEnd : Contents → Prop
  | .last run close => run.OpenAtEnd ∧ (run.Closed ∨ close = none)
  | .comma run _ rest => run.OpenAtEnd ∧ run.Closed ∧ rest.OpenAtEnd

end

namespace Contents

/-- Contents one behind the other, each but the last of them closed. -/
def Rows : Contents → List Contents → Prop
  | contents, [] => contents.OpenAtEnd
  | contents, after :: outer => contents.OpenAtEnd ∧ contents.Closed ∧ Rows after outer

theorem Rows.openAtEnd {contents : Contents} {outer : List Contents}
    (rows : Rows contents outer) : contents.OpenAtEnd := by
  cases outer with
  | nil => exact rows
  | cons after outer => exact rows.1

/-- A piece in front of the first row that holds no open group. -/
theorem Rows.prepend (piece : Run → Run) (atEnd : ∀ run, (piece run).OpenAtEnd ↔ run.OpenAtEnd)
    (closed : ∀ run, (piece run).Closed ↔ run.Closed) {contents : Contents}
    {outer : List Contents} (rows : Rows contents outer) :
    Rows (contents.prepend piece) outer := by
  have openAtEnd : contents.OpenAtEnd → (contents.prepend piece).OpenAtEnd := by
    cases contents <;> simp [Contents.prepend, OpenAtEnd, atEnd, closed]
  have stillClosed : contents.Closed → (contents.prepend piece).Closed := by
    cases contents <;> simp [Contents.prepend, Closed, closed]
  cases outer with
  | nil => exact openAtEnd rows
  | cons after outer => exact ⟨openAtEnd rows.1, stillClosed rows.2.1, rows.2.2⟩

/-- In arranged tokens nothing follows a group that is not closed. -/
theorem rows_arrange (tokens : List PlacedToken) :
    Rows (arrange tokens).1 (arrange tokens).2 := by
  induction tokens with
  | nil => exact ⟨trivial, .inr rfl⟩
  | cons placed rest ih =>
      generalize arranged : arrange rest = arrangement at ih
      obtain ⟨contents, outer⟩ := arrangement
      rcases placed.token.isPlain_or with plain | opens | closes | divides
      · rw [arrange_plain plain arranged]
        exact ih.prepend (.token placed) (fun _ => Iff.rfl) (fun _ => Iff.rfl)
      · cases outer with
        | nil =>
            rw [arrange_open_unclosed opens arranged]
            exact ⟨⟨ih, trivial, .inr rfl⟩, .inr rfl⟩
        | cons after outer =>
            obtain ⟨openAtEnd, closed, rows⟩ := ih
            rw [arrange_open opens arranged]
            apply rows.prepend (.group placed contents)
            · intro run
              simp [Run.OpenAtEnd, openAtEnd, closed]
            · intro run
              simp [Run.Closed, closed]
      · rw [arrange_close closes arranged]
        exact ⟨⟨trivial, .inl trivial⟩, ⟨trivial, rfl⟩, ih⟩
      · rw [arrange_comma divides arranged]
        cases outer with
        | nil => exact ⟨trivial, trivial, ih⟩
        | cons after outer =>
            obtain ⟨openAtEnd, closed, rows⟩ := ih
            exact ⟨⟨trivial, trivial, openAtEnd⟩, ⟨trivial, closed⟩, rows⟩

end Contents

end ConditionalAssembly
