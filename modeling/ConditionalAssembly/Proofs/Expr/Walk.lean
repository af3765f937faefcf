import ConditionalAssembly.Proofs.Expr.Grammar

/-!
# Walking along the tokens of a list of fragments

Whether a token may follow others does not depend on what they mean, only on
the groups that are open and on the term directly in front that may take a
group.  A walk keeps account of these from token to token, and it is stuck at
the first token that may not stand where it does.

A walk that is not stuck comes to an end once the open groups are closed.
-/

namespace ConditionalAssembly.Walk

/-- A group that is open, as far as it has come. -/
inductive Frame where
  /-- A list in parentheses, or the second bound of a part. -/
  | list
  /-- The arguments of a subscript. -/
  | arguments
  /-- The first bound of a part. -/
  | firstBound
  /-- The comma behind the first bound of a part. -/
  | secondBound
  /-- The asterisk in place of the second bound of a part. -/
  | toEnd
  /-- The pieces of a created name. -/
  | name

/-- The term in front that takes a group directly behind it, and the column where it ends. -/
inductive Behind where
  | nothing
  | variable (stop : Nat)
  | string (stop : Nat)
  deriving DecidableEq

/-- The open groups from the inside out, and what stands in front. -/
structure State where
  frames : List Frame
  behind : Behind

/-- Fragments stand in the innermost open group, or in no group at all. -/
def HoldsFragments : List Frame → Prop
  | .secondBound :: _ | .toEnd :: _ | .name :: _ => False
  | _ => True

/-- A comma among fragments. -/
def divide : List Frame → Option State
  | .arguments :: outer => some ⟨.arguments :: outer, .nothing⟩
  | .firstBound :: outer => some ⟨.secondBound :: outer, .nothing⟩
  | _ => none

/-- A closing parenthesis behind fragments. -/
def close : List Frame → Option State
  | .list :: outer | .arguments :: outer => some ⟨outer, .nothing⟩
  | _ => none

/-- A token where a fragment may begin. -/
def fragmentStep (frames : List Frame) (behind : Behind) (placed : PlacedToken) : Option State :=
  match placed.token with
  | .integer value => if value < 2147483648 then some ⟨frames, .nothing⟩ else none
  | .plus | .minus | .star | .slash | .dot | .identifier _ | .attributeOf _ false _ =>
      some ⟨frames, .nothing⟩
  | .attributeOf _ true _ | .variableName _ => some ⟨frames, .variable placed.stop⟩
  | .string _ => some ⟨frames, .string placed.stop⟩
  | .createdName => some ⟨.name :: frames, .nothing⟩
  | .openParen =>
      if behind = .variable placed.start then some ⟨.arguments :: frames, .nothing⟩
      else if behind = .string placed.start then some ⟨.firstBound :: frames, .nothing⟩
      else some ⟨.list :: frames, .nothing⟩
  | .comma => divide frames
  | .closeParen => close frames

/-- A token in a created name, in front of the groups around the name. -/
def nameStep (outer : List Frame) (behind : Behind) (placed : PlacedToken) : Option State :=
  match placed.token with
  | .identifier _ | .integer _ | .dot => some ⟨.name :: outer, .nothing⟩
  | .variableName _ => some ⟨.name :: outer, .variable placed.stop⟩
  | .openParen =>
      if behind = .variable placed.start then some ⟨.arguments :: .name :: outer, .nothing⟩
      else none
  | .closeParen => some ⟨outer, .variable placed.stop⟩
  | _ => none

namespace State

/-- One token further, unless it may not stand there. -/
def step : State → PlacedToken → Option State
  | ⟨.name :: outer, behind⟩, placed => nameStep outer behind placed
  | ⟨.toEnd :: outer, _⟩, placed =>
      if placed.token = .closeParen then some ⟨outer, .nothing⟩ else none
  | ⟨.secondBound :: outer, behind⟩, placed =>
      if placed.token = .star then some ⟨.toEnd :: outer, .nothing⟩
      else fragmentStep (.list :: outer) behind placed
  | ⟨frames, behind⟩, placed => fragmentStep frames behind placed

/-- Token by token along a sequence. -/
def walk (state : State) (tokens : List PlacedToken) : Option State :=
  tokens.foldlM step state

@[simp]
theorem walk_nil (state : State) : state.walk [] = some state :=
  rfl

@[simp]
theorem walk_cons (state : State) (placed : PlacedToken) (rest : List PlacedToken) :
    state.walk (placed :: rest) = (state.step placed).bind fun next => next.walk rest :=
  List.foldlM_cons

theorem walk_append (state : State) (first second : List PlacedToken) :
    state.walk (first ++ second) = (state.walk first).bind fun next => next.walk second :=
  List.foldlM_append

theorem exists_walk_of_append {state reached : State} {first second : List PlacedToken}
    (walked : state.walk (first ++ second) = some reached) :
    ∃ between, state.walk first = some between := by
  rw [walk_append] at walked
  obtain ⟨between, walkedFirst, -⟩ := Option.bind_eq_some_iff.mp walked
  exact ⟨between, walkedFirst⟩

/-- A walk is stuck for good. -/
theorem walk_eq_none {state reached : State} {before : List PlacedToken} {placed : PlacedToken}
    (walked : state.walk before = some reached) (stuck : reached.step placed = none)
    (after : List PlacedToken) : state.walk (before ++ placed :: after) = none := by
  rw [walk_append, walked, Option.bind_some, walk_cons, stuck, Option.bind_none]

theorem step_of_holdsFragments {frames : List Frame} (holds : HoldsFragments frames)
    (behind : Behind) (placed : PlacedToken) :
    step ⟨frames, behind⟩ placed = fragmentStep frames behind placed := by
  cases frames with
  | nil => rfl
  | cons frame outer =>
      cases frame with
      | list | arguments | firstBound => rfl
      | secondBound | toEnd | name => exact holds.elim

/-! ## Ends of a walk -/

theorem exists_closing (frame : Frame) (outer : List Frame) (behind : Behind) :
    ∃ more left, walk ⟨frame :: outer, behind⟩ more = some ⟨outer, left⟩ := by
  let comma : PlacedToken := ⟨.comma, 0, 0⟩
  let parenthesis : PlacedToken := ⟨.closeParen, 0, 0⟩
  cases frame with
  | list | arguments | secondBound | toEnd | name => exact ⟨[parenthesis], _, rfl⟩
  | firstBound => exact ⟨[comma, parenthesis], _, rfl⟩

/-- A walk comes to an end once every open group is closed. -/
theorem exists_ending (state : State) : ∃ more left, state.walk more = some ⟨[], left⟩ := by
  obtain ⟨frames, behind⟩ := state
  induction frames generalizing behind with
  | nil => exact ⟨[], behind, rfl⟩
  | cons frame outer ih =>
      obtain ⟨first, between, closed⟩ := exists_closing frame outer behind
      obtain ⟨second, left, ended⟩ := ih between
      refine ⟨first ++ second, left, ?_⟩
      rw [walk_append, closed, Option.bind_some, ended]

end State

end ConditionalAssembly.Walk
