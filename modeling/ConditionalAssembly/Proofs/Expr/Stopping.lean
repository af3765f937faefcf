import ConditionalAssembly.Proofs.Expr.Following
import ConditionalAssembly.Proofs.Expr.Parsing

/-!
# Where reading stops

The readers of groups, arguments, bounds and names all follow the walk along
their tokens.  So a source is refused at the first token with which no list of
fragments begins any more, or at its end, when all of its tokens begin one.
-/

namespace ConditionalAssembly.Reader

open Grammar Walk

/-! ## Terms held back -/

/-- What a term held back may take directly behind it. -/
def behindOf : Option Term → Behind
  | none | some (.list _ _) => .nothing
  | some (.variableTerm reference) | some (.variableAttribute _ reference _) =>
      .variable reference.range.stop.column
  | some (.string _ _ _ stop) => .string stop

/-- A subscript is taken by a variable, or by the attribute of one. -/
theorem behindOf_eq_variable {pending : Option Term} {stop : Nat}
    (isBehind : behindOf pending = .variable stop) :
    pending.map Term.stop = some stop ∧
      ((∃ reference, pending = some (.variableTerm reference)) ∨
        ∃ kind reference range, pending = some (.variableAttribute kind reference range)) := by
  unfold behindOf at isBehind
  split at isBehind <;> cases isBehind
  next reference => exact ⟨rfl, .inl ⟨reference, rfl⟩⟩
  next kind reference range => exact ⟨rfl, .inr ⟨kind, reference, range, rfl⟩⟩

/-- The bounds of a part are taken by a string. -/
theorem behindOf_eq_string {pending : Option Term} {stop : Nat}
    (isBehind : behindOf pending = .string stop) :
    pending.map Term.stop = some stop ∧
      ∃ duplication chain start last, pending = some (.string duplication chain start last) := by
  unfold behindOf at isBehind
  split at isBehind <;> cases isBehind
  exact ⟨rfl, _, _, _, _, rfl⟩

/-- A group directly behind a variable is its subscript. -/
theorem step_subscript {frames : List Frame} (holds : HoldsFragments frames)
    {opener : PlacedToken} (isOpen : opener.token = .openParen) {stop : Nat}
    (adjacent : stop = opener.start) :
    State.step ⟨frames, .variable stop⟩ opener = some ⟨.arguments :: frames, .nothing⟩ := by
  simp [State.step_of_holdsFragments holds, fragmentStep, isOpen, adjacent]

/-- A group directly behind a string holds the bounds of a part. -/
theorem step_bounds {frames : List Frame} (holds : HoldsFragments frames)
    {opener : PlacedToken} (isOpen : opener.token = .openParen) {stop : Nat}
    (adjacent : stop = opener.start) :
    State.step ⟨frames, .string stop⟩ opener = some ⟨.firstBound :: frames, .nothing⟩ := by
  simp [State.step_of_holdsFragments holds, fragmentStep, isOpen, adjacent]

/-! ## Reading -/

/-- Behind an asterisk, contents are what they were from there on. -/
theorem afterStar?_eq_some {contents after : Contents} (proper : contents.Proper)
    (found : contents.afterStar? = some after) :
    ∃ star, star.token = .star ∧ contents.tokens = star :: after.tokens ∧
      contents.Closed = after.Closed ∧ after.Proper := by
  unfold Contents.afterStar? at found
  split at found
  next star rest close =>
    obtain ⟨isStar, ⟨⟩⟩ := Option.ite_none_right_eq_some.mp found
    exact ⟨star, isStar, rfl, rfl, proper.1.2, proper.2⟩
  next star rest separator more =>
    obtain ⟨isStar, ⟨⟩⟩ := Option.ite_none_right_eq_some.mp found
    exact ⟨star, isStar, rfl, rfl, proper.1.2, proper.2⟩
  next => exact nomatch found

/-- The second bound of a part is a list unless it begins with an asterisk. -/
theorem Follows.atSecondBound {α : Type} {outer : List Frame} {tokens : List PlacedToken}
    {closed : Prop} {result : Except ReadError α}
    (follows : Follows ⟨.list :: outer, .nothing⟩ tokens closed
      (fun _ reached => reached = ⟨outer, .nothing⟩) result)
    (noStar : ∀ first ∈ tokens.head?, first.token ≠ .star) :
    Follows ⟨.secondBound :: outer, .nothing⟩ tokens closed
      (fun _ reached => reached = ⟨outer, .nothing⟩) result := by
  cases tokens with
  | nil =>
      cases follows with
      | ok walked arrived =>
          cases walked
          exact absurd (congrArg State.frames arrived) (List.cons_ne_self _ _)
      | stuck split => simp at split
      | ranOut isOpen _ _ atEnd => exact .ranOut isOpen rfl (List.cons_ne_nil _ _) atEnd
  | cons first rest =>
      have same : State.step ⟨.secondBound :: outer, .nothing⟩ first =
          State.step ⟨.list :: outer, .nothing⟩ first :=
        if_neg (noStar first rfl)
      exact follows.of_step_eq same

/-- The parenthesis that closes a group behind an asterisk. -/
theorem follows_closing {contents : Contents} (proper : contents.Proper) (outer : List Frame) :
    Follows ⟨.toEnd :: outer, .nothing⟩ contents.tokens contents.Closed
      (fun _ reached => reached = ⟨outer, .nothing⟩) (closing contents) := by
  have stuck {placed : PlacedToken} (different : placed.token ≠ .closeParen) :
      State.step ⟨.toEnd :: outer, .nothing⟩ placed = none :=
    if_neg different
  have opensOther {opener : PlacedToken}
      (opens : opener.token = .openParen ∨ opener.token = .createdName) :
      opener.token ≠ .closeParen := by
    rcases opens with opens | opens <;> simp [opens]
  have plainOther {placed : PlacedToken} (plain : placed.token.IsPlain) :
      placed.token ≠ .closeParen := by
    intro closes
    simp [Token.IsPlain, closes] at plain
  unfold closing
  split
  next close =>
    have closes : close.token = .closeParen := proper.2 close rfl
    exact .ok (by simp [Contents.tokens, Run.tokens, State.step, closes]) rfl
  next => exact .ranOut nofun rfl (List.cons_ne_nil _ _) rfl
  next => exact .atFirst _ (stuck (plainOther proper.1.1))
  next => exact .atFirst _ (stuck (opensOther proper.1.1))
  next => exact .atFirst _ (stuck (by simp [proper.2.1]))
  next => exact .atFirst _ (stuck (plainOther proper.1.1))
  next => exact .atFirst _ (stuck (opensOther proper.1.1))

-- The induction is on the groups.  It is carried by `OpenAtEnd`: behind a group that is not closed
-- the reader gives up, while the walk would go on if anything were left.
mutual

theorem follows_readRun :
    ∀ (run : Run) (pending : Option Term) (frames : List Frame),
      run.Proper → run.OpenAtEnd → HoldsFragments frames →
        Follows ⟨frames, behindOf pending⟩ run.tokens run.Closed
          (fun _ reached => reached.frames = frames) (readRun pending run)
  | .nil, _, _, _, _, _ => by
      rw [readRun.eq_def]
      exact .ok rfl rfl
  | .group opener contents rest, pending, frames, ⟨opens, proper, properRest⟩,
      ⟨openAtEnd, restOpenAtEnd, ends⟩, holds => by
      have readRest (pending : Option Term) :=
        follows_readRun rest pending frames properRest restOpenAtEnd holds
      rw [readRun.eq_def]
      dsimp only
      split
      next bare isAdjacent =>
        obtain ⟨isOpen, adjacent⟩ := of_decide_eq_true isAdjacent
        refine .group (step_subscript holds isOpen (Option.some.inj adjacent))
          (follows_readArguments contents frames proper openAtEnd) ends ?_
        rintro answer _ rfl
        exact (readRest none).map _
      next kind bare range isAdjacent =>
        obtain ⟨isOpen, adjacent⟩ := of_decide_eq_true isAdjacent
        refine .group (step_subscript holds isOpen (Option.some.inj adjacent))
          (follows_readArguments contents frames proper openAtEnd) ends ?_
        rintro answer _ rfl
        exact (readRest none).map _
      next duplication chain start stop isAdjacent =>
        obtain ⟨isOpen, adjacent⟩ := of_decide_eq_true isAdjacent
        refine .group (step_bounds holds isOpen (Option.some.inj adjacent))
          (follows_readSelection contents frames proper openAtEnd) ends ?_
        rintro answer _ rfl
        exact (readRest none).map _
      next pending _ _ notVariable notAttribute notString =>
        split
        next isCreated =>
          have enters : State.step ⟨frames, behindOf pending⟩ opener =
              some ⟨.name :: frames, .nothing⟩ := by
            simp [State.step_of_holdsFragments holds, fragmentStep, isCreated]
          refine .group enters (follows_readName contents frames proper openAtEnd) ends ?_
          rintro ⟨chain, close⟩ _ rfl
          exact (readRest (some (.variableTerm
            ⟨.created chain, [], .columns opener.start close.stop⟩))).map _
        next notCreated =>
          have isOpen := opens.resolve_right notCreated
          have noVariable : behindOf pending ≠ .variable opener.start := by
            intro isBehind
            obtain ⟨stops, ⟨reference, rfl⟩ | ⟨kind, reference, range, rfl⟩⟩ :=
              behindOf_eq_variable isBehind
            · exact notVariable reference rfl (decide_eq_true ⟨isOpen, stops⟩)
            · exact notAttribute kind reference range rfl (decide_eq_true ⟨isOpen, stops⟩)
          have noString : behindOf pending ≠ .string opener.start := by
            intro isBehind
            obtain ⟨stops, duplication, chain, start, stop, rfl⟩ := behindOf_eq_string isBehind
            exact notString duplication chain start stop rfl (decide_eq_true ⟨isOpen, stops⟩)
          have enters : State.step ⟨frames, behindOf pending⟩ opener =
              some ⟨.list :: frames, .nothing⟩ := by
            simp [State.step_of_holdsFragments holds, fragmentStep, isOpen, noVariable, noString]
          refine .group enters (follows_readList contents frames proper openAtEnd) ends ?_
          rintro ⟨fragments, close⟩ _ rfl
          exact (readRest (some (.list fragments (.columns opener.start close.stop)))).map _
  | .token placed rest, pending, frames, ⟨plain, proper⟩, openAtEnd, holds => by
      have onward {next : Option Term} (change : List Expr → List Expr)
          (stepped : State.step ⟨frames, behindOf pending⟩ placed = some ⟨frames, behindOf next⟩) :
          Follows ⟨frames, behindOf pending⟩ (placed :: rest.tokens) rest.Closed
            (fun _ reached => reached.frames = frames)
            (do return change (← readRun next rest)) :=
        ((follows_readRun rest next frames proper openAtEnd holds).map change).step stepped
      have stepped := State.step_of_holdsFragments holds (behindOf pending) placed
      unfold fragmentStep at stepped
      rw [readRun.eq_def]
      dsimp only
      cases token : placed.token with
      | integer value =>
          rw [token] at stepped
          dsimp only
          split
          next word fits =>
            have bounded := (ofInt?_natCast_eq_some.mp fits).1
            exact onward _ (stepped.trans (if_pos bounded))
          next exceeds =>
            have unbounded : ¬ value < 2147483648 := by
              intro bounded
              cases exceeds.symm.trans (ofInt?_natCast_eq_some.mpr ⟨bounded, rfl⟩)
            exact .atFirst _ (stepped.trans (if_neg unbounded))
      | plus | minus | star | slash | dot | identifier name =>
          rw [token] at stepped
          exact onward _ stepped
      | attributeOf kind ofVariable name =>
          rw [token] at stepped
          cases ofVariable with
          | false => exact onward _ stepped
          | true =>
              refine onward _ ?_
              exact stepped
      | variableName name =>
          rw [token] at stepped
          refine onward _ ?_
          exact stepped
      | string raw =>
          rw [token] at stepped
          dsimp only
          split
          next fragments range _ =>
            have repeated := follows_readRun rest (some (.string (some (.unresolved fragments range))
              (.ofQuoted (placed.start + 1) raw.toList) range.start.column placed.stop)) frames
              proper openAtEnd holds
            exact repeated.step stepped
          next =>
            refine onward _ ?_
            exact stepped
      | createdName | openParen | closeParen | comma => simp [Token.IsPlain, token] at plain

theorem follows_readList :
    ∀ (contents : Contents) (outer : List Frame), contents.Proper → contents.OpenAtEnd →
      Follows ⟨.list :: outer, .nothing⟩ contents.tokens contents.Closed
        (fun _ reached => reached = ⟨outer, .nothing⟩) (readList contents)
  | .last run (some close), outer, ⟨proper, closes⟩, ⟨openAtEnd, ends⟩ => by
      have token : close.token = .closeParen := closes close rfl
      have fragments := follows_readRun run none (.list :: outer) proper openAtEnd trivial
      rw [readList]
      exact fragments.closedBy (ends.resolve_right nofun)
        (by simp [State.step, fragmentStep, token, Walk.close]) fun _ => rfl
  | .last run none, outer, ⟨proper, _⟩, ⟨openAtEnd, _⟩ => by
      have fragments := follows_readRun run none (.list :: outer) proper openAtEnd trivial
      rw [readList]
      exact fragments.unclosed (List.cons_ne_nil _ _) rfl
  | .comma run placed rest, outer, ⟨proper, divides, _⟩, ⟨openAtEnd, noneOpen, _⟩ => by
      have fragments := follows_readRun run none (.list :: outer) proper openAtEnd trivial
      rw [readList]
      exact fragments.endedBy noneOpen _ (by simp [State.step, fragmentStep, divides, divide])

theorem follows_readArguments :
    ∀ (contents : Contents) (outer : List Frame), contents.Proper → contents.OpenAtEnd →
      Follows ⟨.arguments :: outer, .nothing⟩ contents.tokens contents.Closed
        (fun _ reached => reached = ⟨outer, .nothing⟩) (readArguments contents)
  | .last run (some close), outer, ⟨proper, closes⟩, ⟨openAtEnd, ends⟩ => by
      have token : close.token = .closeParen := closes close rfl
      have fragments := follows_readRun run none (.arguments :: outer) proper openAtEnd trivial
      rw [readArguments]
      exact fragments.closedBy (ends.resolve_right nofun)
        (by simp [State.step, fragmentStep, token, Walk.close]) fun _ => rfl
  | .last run none, outer, ⟨proper, _⟩, ⟨openAtEnd, _⟩ => by
      have fragments := follows_readRun run none (.arguments :: outer) proper openAtEnd trivial
      rw [readArguments]
      exact fragments.unclosed (List.cons_ne_nil _ _) rfl
  | .comma run placed rest, outer, ⟨proper, divides, properRest⟩,
      ⟨openAtEnd, noneOpen, restOpenAtEnd⟩ => by
      have fragments := follows_readRun run none (.arguments :: outer) proper openAtEnd trivial
      have steps (behind : Behind) : State.step ⟨.arguments :: outer, behind⟩ placed =
          some ⟨.arguments :: outer, .nothing⟩ := by
        simp [State.step, fragmentStep, divides, divide]
      rw [readArguments]
      refine fragments.dividedBy noneOpen steps fun _ => ?_
      exact (follows_readArguments rest outer properRest restOpenAtEnd).map _

theorem follows_readSelection :
    ∀ (contents : Contents) (outer : List Frame), contents.Proper → contents.OpenAtEnd →
      Follows ⟨.firstBound :: outer, .nothing⟩ contents.tokens contents.Closed
        (fun _ reached => reached = ⟨outer, .nothing⟩) (readSelection contents)
  | .last run (some close), outer, ⟨proper, closes⟩, ⟨openAtEnd, ends⟩ => by
      have token : close.token = .closeParen := closes close rfl
      have fragments := follows_readRun run none (.firstBound :: outer) proper openAtEnd trivial
      rw [readSelection]
      exact fragments.endedBy (ends.resolve_right nofun) _
        (by simp [State.step, fragmentStep, token, Walk.close])
  | .last run none, outer, ⟨proper, _⟩, ⟨openAtEnd, _⟩ => by
      have fragments := follows_readRun run none (.firstBound :: outer) proper openAtEnd trivial
      rw [readSelection]
      exact fragments.unclosed (List.cons_ne_nil _ _) rfl
  | .comma run placed rest, outer, ⟨proper, divides, properRest⟩,
      ⟨openAtEnd, noneOpen, restOpenAtEnd⟩ => by
      have fragments := follows_readRun run none (.firstBound :: outer) proper openAtEnd trivial
      have steps (behind : Behind) : State.step ⟨.firstBound :: outer, behind⟩ placed =
          some ⟨.secondBound :: outer, .nothing⟩ := by
        simp [State.step, fragmentStep, divides, divide]
      rw [readSelection]
      refine fragments.dividedBy noneOpen steps fun _ => ?_
      dsimp only
      split
      next after found =>
        obtain ⟨star, isStar, tokens, closed, properAfter⟩ := afterStar?_eq_some properRest found
        rw [tokens, closed]
        exact ((follows_closing properAfter outer).map _).step (if_pos isStar)
      next missing =>
        have others := follows_readList rest outer properRest restOpenAtEnd
        exact (others.atSecondBound (head_ne_star properRest missing)).map _

theorem follows_readName :
    ∀ (contents : Contents) (outer : List Frame), contents.Proper → contents.OpenAtEnd →
      Follows ⟨.name :: outer, .nothing⟩ contents.tokens contents.Closed
        (fun answer reached => reached = ⟨outer, .variable answer.2.stop⟩) (readName contents)
  | .last run (some close), outer, ⟨proper, closes⟩, ⟨openAtEnd, ends⟩ => by
      have token : close.token = .closeParen := closes close rfl
      have pieces := follows_readPieces run none outer .nothing proper openAtEnd nofun
      have steps (behind : Behind) : State.step ⟨.name :: outer, behind⟩ close =
          some ⟨outer, .variable close.stop⟩ := by
        simp [State.step, nameStep, token]
      rw [readName]
      exact pieces.closedBy (ends.resolve_right nofun) steps fun _ => rfl
  | .last run none, outer, ⟨proper, _⟩, ⟨openAtEnd, _⟩ => by
      have pieces := follows_readPieces run none outer .nothing proper openAtEnd nofun
      rw [readName]
      exact pieces.unclosed (List.cons_ne_nil _ _) rfl
  | .comma run placed rest, outer, ⟨proper, divides, _⟩, ⟨openAtEnd, noneOpen, _⟩ => by
      have pieces := follows_readPieces run none outer .nothing proper openAtEnd nofun
      rw [readName]
      exact pieces.endedBy noneOpen _ (by simp [State.step, nameStep, divides])

/-- The reader of pieces looks one token ahead at the subscript of a variable.  A group that it
comes to otherwise is not one. -/
theorem follows_readPieces :
    ∀ (run : Run) (period : Option Nat) (outer : List Frame) (behind : Behind),
      run.Proper → run.OpenAtEnd →
      (∀ opener contents rest, run = .group opener contents rest →
        behind ≠ .variable opener.start) →
        Follows ⟨.name :: outer, behind⟩ run.tokens run.Closed
          (fun _ reached => reached.frames = .name :: outer) (readPieces period run)
  | .nil, _, _, _, _, _, _ => by
      rw [readPieces]
      exact .ok rfl rfl
  | .group opener contents rest, _, outer, behind, ⟨opens, _⟩, _, apart => by
      have noVariable := apart opener contents rest rfl
      rw [readPieces]
      refine .atFirst _ ?_
      rcases opens with opens | opens <;> simp [State.step, nameStep, opens, noVariable]
  | .token placed rest, period, outer, behind, ⟨plain, proper⟩, openAtEnd, _ => by
      have stepped : State.step ⟨.name :: outer, behind⟩ placed = nameStep outer behind placed :=
        rfl
      unfold nameStep at stepped
      have readRest (period : Option Nat) :=
        follows_readPieces rest period outer .nothing proper openAtEnd nofun
      rw [readPieces]
      cases token : placed.token with
      | identifier name | integer value =>
          rw [token] at stepped
          exact ((readRest none).map _).step stepped
      | dot =>
          rw [token] at stepped
          dsimp only
          split
          next => exact (readRest none).step stepped
          next => exact ((readRest none).map _).step stepped
      | variableName name =>
          rw [token] at stepped
          refine .step stepped ?_
          dsimp only
          split
          next opener contents after _ =>
            obtain ⟨opens, properContents, properAfter⟩ := proper
            obtain ⟨contentsOpenAtEnd, afterOpenAtEnd, ends⟩ := openAtEnd
            split
            next isAdjacent =>
              have enters : State.step ⟨.name :: outer, .variable placed.stop⟩ opener =
                  some ⟨.arguments :: .name :: outer, .nothing⟩ := by
                simp [State.step, nameStep, isAdjacent]
              refine .group enters (follows_readArguments contents (.name :: outer) properContents
                contentsOpenAtEnd) ends ?_
              rintro answer _ rfl
              exact (follows_readPieces after _ outer .nothing properAfter afterOpenAtEnd
                nofun).map _
            next apart =>
              refine .atFirst _ ?_
              rcases opens with isOpen | isCreated
              · have apart : placed.stop ≠ opener.start :=
                  fun adjacent => apart ⟨isOpen, adjacent.symm⟩
                simp [State.step, nameStep, isOpen, apart]
              · simp [State.step, nameStep, isCreated]
          next notGroup =>
            exact (follows_readPieces rest _ outer (.variable placed.stop) proper openAtEnd
              fun opener contents after isGroup =>
                (notGroup opener contents after isGroup).elim).map _
      | plus | minus | star | slash | attributeOf _ _ _ | string _ | createdName =>
          rw [token] at stepped
          exact .atFirst _ stepped
      | openParen | closeParen | comma => simp [Token.IsPlain, token] at plain

end

/-- The reader of a source follows the walk along its tokens. -/
theorem follows_readSource (tokens : List PlacedToken) :
    Follows ⟨[], .nothing⟩ tokens False (fun _ reached => reached.frames = [])
      (readSource (.ofTokens tokens)) := by
  have proper : (Contents.ofTokens tokens).Proper := (Contents.proper_arrange tokens).1
  have openAtEnd : (Contents.ofTokens tokens).OpenAtEnd := (Contents.rows_arrange tokens).openAtEnd
  have whole (unclosed : (Contents.ofTokens tokens).close? = none) :=
    Contents.tokens_ofTokens unclosed
  have arranged : (Contents.ofTokens tokens).tokens ++ _ = tokens := Contents.tokens_arrange tokens
  unfold readSource
  split
  next run source =>
    rw [source] at proper openAtEnd whole
    have isWhole : run.tokens = tokens := by simpa [Contents.tokens] using whole rfl
    have fragments := follows_readRun run none [] proper.1 openAtEnd.1 trivial
    rw [isWhole] at fragments
    exact fragments.past (State.walk_nil _) False.elim
  next run close source =>
    rw [source, Contents.tokens, List.append_assoc] at arranged
    rw [source] at proper openAtEnd
    have closes : close.token = .closeParen := proper.2 close rfl
    have fragments := follows_readRun run none [] proper.1 openAtEnd.1 trivial
    rw [← arranged]
    exact fragments.endedBy (openAtEnd.2.resolve_right nofun) _
      (by simp [State.step, fragmentStep, closes, Walk.close])
  next run placed rest source =>
    rw [source, Contents.tokens, List.append_assoc] at arranged
    rw [source] at proper openAtEnd
    have fragments := follows_readRun run none [] proper.1 openAtEnd.1 trivial
    rw [← arranged]
    exact fragments.endedBy openAtEnd.2.1 _
      (by simp [State.step, fragmentStep, proper.2.1, divide])

end ConditionalAssembly.Reader

namespace ConditionalAssembly.Grammar

open Reader Walk

/-- With some more tokens behind them the tokens are a list of fragments. -/
def Begins (tokens : List PlacedToken) : Prop :=
  ∃ more fragments, Fragments (tokens ++ more) fragments

theorem Begins.of_append {first second : List PlacedToken} (begins : Begins (first ++ second)) :
    Begins first := by
  obtain ⟨more, fragments, derived⟩ := begins
  rw [List.append_assoc] at derived
  exact ⟨second ++ more, fragments, derived⟩

/-- The walk comes past the tokens with which a list of fragments begins. -/
theorem begins_iff {tokens : List PlacedToken} :
    Begins tokens ↔ ∃ reached, State.walk ⟨[], .nothing⟩ tokens = some reached := by
  constructor
  · rintro ⟨more, fragments, derived⟩
    obtain ⟨piece, composed, reads⟩ := reads_fragments derived
    have follows := follows_readSource (tokens ++ more)
    rw [composed.ofTokens_eq, readSource, reads] at follows
    cases follows with
    | ok walked _ => exact State.exists_walk_of_append walked
  · rintro ⟨reached, walked⟩
    obtain ⟨more, left, ended⟩ := reached.exists_ending
    have whole : State.walk ⟨[], .nothing⟩ (tokens ++ more) = some ⟨[], left⟩ := by
      rw [State.walk_append, walked, Option.bind_some, ended]
    have follows := follows_readSource (tokens ++ more)
    have derives := derives_readSource (tokens ++ more)
    generalize readSource (.ofTokens (tokens ++ more)) = result at follows derives
    cases follows with
    | @ok fragments => exact ⟨more, fragments, derives fragments rfl⟩
    | @stuck before after _ _ _ split walkedBefore stuck =>
        rw [split, State.walk_eq_none walkedBefore stuck after] at whole
        cases whole
    | ranOut _ walkedAll deep _ =>
        cases whole.symm.trans walkedAll
        exact absurd rfl deep

end ConditionalAssembly.Grammar

namespace ConditionalAssembly.Reader

open Grammar Walk

/-- Tokens that are refused run out while they begin a list of fragments, or else there is a first
token with which none begins. -/
theorem readSource_error {tokens : List PlacedToken} {error : ReadError}
    (refused : readSource (.ofTokens tokens) = .error error) :
    (Begins tokens ∧ error.column = 0 ∧ error.cause.atEnd) ∨
      ∃ before placed after, tokens = before ++ placed :: after ∧ Begins before ∧
        ¬ Begins (before ++ [placed]) ∧ error.column = placed.start + 1 := by
  have follows := follows_readSource tokens
  rw [refused] at follows
  cases follows with
  | @stuck before after placed _ _ split walked stuck =>
      right
      refine ⟨before, placed, after, split, begins_iff.mpr ⟨_, walked⟩, ?_, rfl⟩
      intro begins
      obtain ⟨reached, walkedOn⟩ := begins_iff.mp begins
      cases (State.walk_eq_none walked stuck []).symm.trans walkedOn
  | ranOut _ walked _ atEnd => exact .inl ⟨begins_iff.mpr ⟨_, walked⟩, rfl, atEnd⟩

end ConditionalAssembly.Reader
