import ConditionalAssembly.Expr.Reader
import ConditionalAssembly.Proofs.Expr.Walk
import ConditionalAssembly.Proofs.Token.Unclosed

/-!
# Readers that follow a walk

A reader takes groups of tokens apart, while a walk sees one token after the
other.  The reader follows the walk when both stop at the same token, or else
both come to the end of the tokens.

Readers follow the walk one after the other, since nothing is left to be read
behind a group that is not closed.
-/

namespace ConditionalAssembly.Reader

open Walk

/-- A reader of some tokens follows the walk along them.  Its answer goes with the state that is
reached, its error stands at the token where the walk is stuck, or else in column zero when the
tokens have run out.  They run out only inside of a group that is not closed. -/
inductive Follows {α : Type} (state : State) (tokens : List PlacedToken) (closed : Prop)
    (reaches : α → State → Prop) : Except ReadError α → Prop where
  | ok {value : α} {reached : State} :
      state.walk tokens = some reached → reaches value reached →
      Follows state tokens closed reaches (.ok value)
  | stuck {before after : List PlacedToken} {placed : PlacedToken} {reached : State}
      {cause : ReadError.Cause} :
      tokens = before ++ placed :: after → state.walk before = some reached →
      reached.step placed = none →
      Follows state tokens closed reaches (.error (errorAt placed cause))
  | ranOut {reached : State} {cause : ReadError.Cause} :
      ¬ closed → state.walk tokens = some reached → reached.frames ≠ [] → cause.atEnd →
      Follows state tokens closed reaches (.error ⟨cause, 0⟩)

section Follows

variable {α β : Type} {state next : State} {placed : PlacedToken} {tokens others : List PlacedToken}
  {closed closedFirst closedSecond : Prop} {reaches : α → State → Prop}
  {reachesFirst : β → State → Prop} {result : Except ReadError α}

/-- A reader is stuck at the first token. -/
theorem Follows.atFirst (cause : ReadError.Cause) (stuck : state.step placed = none) :
    Follows state (placed :: tokens) closed reaches (.error (errorAt placed cause)) :=
  .stuck (List.nil_append _).symm rfl stuck

/-- A reader of what follows tokens that the walk has come past. -/
theorem Follows.past {reached : State} (walked : state.walk tokens = some reached)
    (ofOthers : closed → closedSecond)
    (follows : Follows reached others closedSecond reaches result) :
    Follows state (tokens ++ others) closed reaches result := by
  have onward (more : List PlacedToken) : state.walk (tokens ++ more) = reached.walk more := by
    rw [State.walk_append, walked, Option.bind_some]
  cases follows with
  | ok walkedOthers arrived => exact .ok ((onward _).trans walkedOthers) arrived
  | stuck split walkedBefore stuck =>
      exact .stuck (by rw [split, List.append_assoc]) ((onward _).trans walkedBefore) stuck
  | ranOut isOpen walkedOthers deep atEnd =>
      exact .ranOut (mt ofOthers isOpen) ((onward _).trans walkedOthers) deep atEnd

/-- One token in front of those that are read. -/
theorem Follows.step (stepped : state.step placed = some next)
    (follows : Follows next tokens closed reaches result) :
    Follows state (placed :: tokens) closed reaches result := by
  have walked : state.walk [placed] = some next := by simp [stepped]
  have both := follows.past walked id
  exact both

/-- One reader after the other.  Nothing follows tokens that have run out. -/
theorem Follows.bind {first : Except ReadError β} {second : β → Except ReadError α}
    (follows : Follows state tokens closedFirst reachesFirst first)
    (ends : closedFirst ∨ others = []) (ofFirst : closed → closedFirst)
    (ofSecond : closed → closedSecond)
    (further : ∀ value reached, reachesFirst value reached →
      Follows reached others closedSecond reaches (second value)) :
    Follows state (tokens ++ others) closed reaches (first >>= second) := by
  cases follows with
  | @ok value reached walked arrived =>
      exact (further value reached arrived).past walked ofSecond
  | @stuck before after placed _ _ split walked stuck =>
      have longer : tokens ++ others = before ++ placed :: (after ++ others) := by simp [split]
      exact .stuck longer walked stuck
  | ranOut isOpen walked deep atEnd =>
      obtain rfl := ends.resolve_left isOpen
      rw [List.append_nil]
      exact .ranOut (mt ofFirst isOpen) walked deep atEnd

/-- Where the first token leads to the same state, the walks are the same. -/
theorem Follows.of_step_eq {other : State} (same : state.step placed = other.step placed)
    (follows : Follows other (placed :: tokens) closed reaches result) :
    Follows state (placed :: tokens) closed reaches result := by
  have alike (more : List PlacedToken) :
      state.walk (placed :: more) = other.walk (placed :: more) := by
    rw [State.walk_cons, State.walk_cons, same]
  cases follows with
  | ok walked arrived => exact .ok ((alike _).trans walked) arrived
  | @stuck before _ _ _ _ split walked stuck =>
      cases before with
      | nil =>
          cases split
          cases walked
          exact .atFirst _ (same.trans stuck)
      | cons first before =>
          obtain ⟨rfl, -⟩ := List.cons.inj split
          exact .stuck split ((alike _).trans walked) stuck
  | ranOut isOpen walked deep atEnd => exact .ranOut isOpen ((alike _).trans walked) deep atEnd

/-- What is read is made into something else. -/
theorem Follows.map {keeps : State → Prop} {first : Except ReadError β}
    (follows : Follows state tokens closed (fun _ => keeps) first) (change : β → α) :
    Follows state tokens closed (fun _ => keeps) (do return change (← first)) := by
  rw [← List.append_nil tokens]
  exact follows.bind (.inr rfl) id (fun _ => True.intro) fun _ _ kept => .ok rfl kept

/-- A group and what follows it. -/
theorem Follows.group {entered : State} {opener : PlacedToken} {contents : Contents} {rest : Run}
    {first : Except ReadError β} {second : β → Except ReadError α}
    (enters : state.step opener = some entered)
    (follows : Follows entered contents.tokens contents.Closed reachesFirst first)
    (ends : contents.Closed ∨ rest = .nil)
    (further : ∀ value reached, reachesFirst value reached →
      Follows reached rest.tokens rest.Closed reaches (second value)) :
    Follows state (Run.group opener contents rest).tokens (Run.group opener contents rest).Closed
      reaches (first >>= second) := by
  have noOthers : contents.Closed ∨ rest.tokens = [] :=
    ends.imp_right fun isNil => by rw [isNil, Run.tokens]
  exact (follows.bind noOthers And.left And.right further).step enters

/-! ## Behind a run -/

section Ending

variable {frames : List Frame} {run : Run} {first : Except ReadError β}

/-- The token behind a run does not belong there. -/
theorem Follows.endedBy
    (follows : Follows state tokens closedFirst (fun _ reached => reached.frames = frames) first)
    (noneOpen : closedFirst) (cause : ReadError.Cause)
    (stuck : ∀ behind, State.step ⟨frames, behind⟩ placed = none) :
    Follows state (tokens ++ placed :: others) closed reaches
      (first >>= fun _ => .error (errorAt placed cause)) := by
  refine follows.bind (.inl noneOpen) (fun _ => noneOpen) id ?_
  rintro _ ⟨_, behind⟩ rfl
  exact .atFirst cause (stuck behind)

/-- The tokens run out behind a run. -/
theorem Follows.unclosed
    (follows : Follows state run.tokens run.Closed (fun _ reached => reached.frames = frames) first)
    (deep : frames ≠ []) {cause : ReadError.Cause} (atEnd : cause.atEnd) :
    Follows state (Contents.last run none).tokens (Contents.last run none).Closed reaches
      (first >>= fun _ => .error ⟨cause, 0⟩) := by
  refine follows.bind (.inr rfl) And.left And.right ?_
  rintro _ reached rfl
  exact .ranOut nofun rfl deep atEnd

/-- A parenthesis closes a group behind a run. -/
theorem Follows.closedBy
    (follows : Follows state run.tokens run.Closed (fun _ reached => reached.frames = frames) first)
    (noneOpen : run.Closed) (steps : ∀ behind, State.step ⟨frames, behind⟩ placed = some next)
    {change : β → α} (arrived : ∀ value, reaches (change value) next) :
    Follows state (Contents.last run (some placed)).tokens
      (Contents.last run (some placed)).Closed reaches (do return change (← first)) := by
  refine follows.bind (.inl noneOpen) And.left (fun _ => True.intro) ?_
  rintro value ⟨_, behind⟩ rfl
  exact .ok (by simp [steps]) (arrived value)

/-- A comma divides a group behind a run. -/
theorem Follows.dividedBy {rest : Contents} {second : β → Except ReadError α}
    (follows : Follows state run.tokens run.Closed (fun _ reached => reached.frames = frames) first)
    (noneOpen : run.Closed) (steps : ∀ behind, State.step ⟨frames, behind⟩ placed = some next)
    (further : ∀ value, Follows next rest.tokens rest.Closed reaches (second value)) :
    Follows state (Contents.comma run placed rest).tokens
      (Contents.comma run placed rest).Closed reaches (first >>= second) := by
  refine follows.bind (.inl noneOpen) And.left And.right ?_
  rintro value ⟨_, behind⟩ rfl
  exact (further value).step (steps behind)

end Ending

end Follows

end ConditionalAssembly.Reader
