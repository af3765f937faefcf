import ConditionalAssembly.Range

/-!
# Ranges one behind another

Ranges of the first line are in sequence between two columns when none of them
is empty, each stands behind the one before it, and all stand between the
columns.
-/

namespace ConditionalAssembly.Range

/-- Ranges that are not empty stand one behind another between two columns. -/
inductive InSequence : Nat → Nat → List Range → Prop where
  | nil {first last : Nat} : first ≤ last → InSequence first last []
  | cons {first start stop last : Nat} {rest : List Range} :
      first ≤ start → start < stop → InSequence stop last rest →
      InSequence first last (.columns start stop :: rest)

/-- A range that is not empty stands between two columns. -/
def Between (first last : Nat) (range : Range) : Prop :=
  ∃ start stop, range = .columns start stop ∧ first ≤ start ∧ start < stop ∧ stop ≤ last

namespace InSequence

variable {first last : Nat} {ranges others : List Range}

theorem le (sequence : InSequence first last ranges) : first ≤ last := by
  induction sequence with
  | nil le => exact le
  | cons before nonempty _ ih => omega

/-- A sequence stands between columns further apart. -/
theorem mono {least greatest : Nat} (sequence : InSequence first last ranges)
    (before : least ≤ first) (behind : last ≤ greatest) : InSequence least greatest ranges := by
  induction sequence generalizing least with
  | nil le => exact .nil (Nat.le_trans before (Nat.le_trans le behind))
  | cons le nonempty _ ih => exact .cons (Nat.le_trans before le) nonempty (ih (Nat.le_refl _) behind)

theorem append {middle : Nat} (front : InSequence first middle ranges)
    (rest : InSequence middle last others) : InSequence first last (ranges ++ others) := by
  induction front with
  | nil le => exact rest.mono le (Nat.le_refl _)
  | cons le nonempty _ ih => exact .cons le nonempty (ih rest)

/-- Each range of a sequence stands between its columns. -/
theorem between (sequence : InSequence first last ranges) {range : Range} (isRange : range ∈ ranges) :
    range.Between first last := by
  induction sequence with
  | nil => cases isRange
  | @cons first start stop last rest le nonempty sequence ih =>
      rcases List.mem_cons.mp isRange with rfl | further
      · exact ⟨start, stop, rfl, le, nonempty, sequence.le⟩
      · obtain ⟨begins, ends, rfl, behind, occupied, inside⟩ := ih further
        exact ⟨begins, ends, rfl, by omega, occupied, inside⟩

/-- Each range of a sequence ends before the next begins. -/
theorem pairwise (sequence : InSequence first last ranges) :
    ranges.Pairwise fun earlier later => earlier.stop.column ≤ later.start.column := by
  induction sequence with
  | nil => exact .nil
  | cons _ _ sequence ih =>
      refine .cons (fun later isLater => ?_) ih
      obtain ⟨start, stop, rfl, behind, _⟩ := sequence.between isLater
      exact behind

/-- A sequence reaches as far as its last range. -/
theorem exists_getLast (sequence : InSequence first last ranges) (nonempty : ranges ≠ []) :
    ∃ start stop, ranges.getLast nonempty = .columns start stop ∧ first ≤ start ∧ start < stop ∧
      stop ≤ last ∧ InSequence first stop ranges := by
  induction sequence with
  | nil => exact absurd rfl nonempty
  | @cons first start stop last rest before occupied sequence ih =>
      cases rest with
      | nil =>
          exact ⟨start, stop, rfl, before, occupied, sequence.le,
            .cons before occupied (.nil (Nat.le_refl _))⟩
      | cons range others =>
          obtain ⟨begins, ends, isLast, behind, occupiedToo, inside, further⟩ :=
            ih (List.cons_ne_nil _ _)
          exact ⟨begins, ends, isLast, by omega, occupiedToo, inside,
            .cons before occupied further⟩

/-- A sequence is covered by its first and its last range together. -/
theorem exists_union {range : Range} (sequence : InSequence first last (range :: others)) :
    ∃ start stop, range.union ((range :: others).getLast (List.cons_ne_nil _ _)) =
        .columns start stop ∧
      first ≤ start ∧ start < stop ∧ stop ≤ last ∧ InSequence start stop (range :: others) := by
  cases sequence with
  | @cons _ start stop _ _ before occupied rest =>
      have whole : InSequence start last (.columns start stop :: others) :=
        .cons (Nat.le_refl _) occupied rest
      obtain ⟨begins, ends, isLast, behind, occupiedToo, inside, covered⟩ :=
        whole.exists_getLast (List.cons_ne_nil _ _)
      have le : stop ≤ ends := by
        cases covered with
        | cons _ _ further => exact further.le
      refine ⟨start, ends, ?_, before, by omega, inside, covered⟩
      rw [isLast, union_columns, Nat.min_eq_left behind, Nat.max_eq_right le]

end InSequence

theorem Between.inSequence {first last : Nat} {range : Range} (between : range.Between first last) :
    InSequence first last [range] := by
  obtain ⟨start, stop, rfl, before, nonempty, behind⟩ := between
  exact .cons before nonempty (.nil behind)

/-- A sequence of two parts has a column between them. -/
theorem inSequence_append {first last : Nat} {ranges others : List Range} :
    InSequence first last (ranges ++ others) ↔
      ∃ middle, InSequence first middle ranges ∧ InSequence middle last others := by
  constructor
  · intro sequence
    induction ranges generalizing first with
    | nil => exact ⟨first, .nil (Nat.le_refl _), sequence⟩
    | cons range rest ih =>
        cases sequence with
        | cons before nonempty further =>
            obtain ⟨middle, front, behind⟩ := ih further
            exact ⟨middle, .cons before nonempty front, behind⟩
  · rintro ⟨middle, front, rest⟩
    exact front.append rest

end ConditionalAssembly.Range
