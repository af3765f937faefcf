import ConditionalAssembly.Proofs.Expr.Grammar
import ConditionalAssembly.Proofs.Expr.Reading
import ConditionalAssembly.Proofs.Token.Arrangement

/-!
# What is read is derived

A term that may go on is held back until the next token shows whether it does.
The tokens of the term held back and those of the run behind it are derived
together.
-/

namespace ConditionalAssembly.Reader

open Grammar

/-! ## Terms held back -/

/-- What a term goes on with. -/
def Term.tail : Term → Tail
  | .list _ range => .string range.stop.column
  | .variableTerm reference | .variableAttribute _ reference _ =>
      .parenthesis reference.range.stop.column
  | .string _ _ _ stop => .parenthesis stop

/-- The tokens of a term held back, or of none. -/
inductive Started : List PlacedToken → Option Term → Prop where
  | nothing : Started [] none
  | list {opener close : PlacedToken} {tokens : List PlacedToken} {fragments : List Expr} :
      opener.token = .openParen → Fragments tokens fragments → close.token = .closeParen →
      Started (opener :: (tokens ++ [close]))
        (some (.list fragments (.columns opener.start close.stop)))
  | variableTerm {tokens : List PlacedToken} {bare : VariableSymbol} :
      Variable tokens bare → Started tokens (some (.variableTerm bare))
  | variableAttribute {placed : PlacedToken} {kind : Attribute} {name : String} :
      placed.token = .attributeOf kind true name →
      Started [placed]
        (some (.variableAttribute kind (basicVariable name (placed.start + 2) placed)
          placed.range))
  | string {tokens : List PlacedToken} {duplication : Option Expr} {chain : Chain}
      {start stop : Nat} :
      Quoted tokens duplication chain start stop →
      Started tokens (some (.string duplication chain start stop))

/-- The tokens that follow do not extend the term held back. -/
def Stops (pending : Option Term) (rest : List PlacedToken) : Prop :=
  ∀ term ∈ pending, term.tail.EndsBefore rest

theorem endsBefore_nil (tail : Tail) : tail.EndsBefore [] :=
  fun _ isNext => nomatch isNext

theorem stops_nil (pending : Option Term) : Stops pending [] :=
  fun term _ => endsBefore_nil term.tail

theorem endsBefore_closed (rest : List PlacedToken) : Tail.closed.EndsBefore rest :=
  fun _ _ taken => taken

/-- Only parentheses and strings extend a term. -/
theorem stops_cons (pending : Option Term) {next : PlacedToken} (rest : List PlacedToken)
    (noParenthesis : next.token ≠ .openParen) (noString : ∀ raw, next.token ≠ .string raw) :
    Stops pending (next :: rest) := by
  rintro term _ _ ⟨⟩ taken
  cases tail : term.tail with
  | closed => simp [tail, Tail.Takes] at taken
  | parenthesis stop =>
      rw [tail] at taken
      exact noParenthesis taken.1
  | string stop =>
      rw [tail] at taken
      obtain ⟨⟨raw, isString⟩, _⟩ := taken
      exact noString raw isString

/-- A parenthesis extends a term directly in front of it that is no list. -/
theorem stops_open {pending : Option Term} {next : PlacedToken} {rest : List PlacedToken}
    (isOpen : next.token = .openParen)
    (noVariable : ∀ reference, pending = some (.variableTerm reference) →
      reference.range.stop.column ≠ next.start)
    (noAttribute : ∀ kind reference range,
      pending = some (.variableAttribute kind reference range) →
        reference.range.stop.column ≠ next.start)
    (noString : ∀ duplication chain start stop,
      pending = some (.string duplication chain start stop) → stop ≠ next.start) :
    Stops pending (next :: rest) := by
  rintro term isTerm _ ⟨⟩ taken
  cases term with
  | list =>
      obtain ⟨⟨raw, isString⟩, _⟩ := taken
      exact nomatch isOpen.symm.trans isString
  | variableTerm reference => exact noVariable reference isTerm taken.2.symm
  | variableAttribute kind reference range =>
      exact noAttribute kind reference range isTerm taken.2.symm
  | string duplication chain start stop =>
      exact noString duplication chain start stop isTerm taken.2.symm

/-- A string extends a list directly in front of it. -/
theorem stops_string {pending : Option Term} {next : PlacedToken} {rest : List PlacedToken}
    {raw : String} (isString : next.token = .string raw)
    (noList : ∀ fragments range, pending = some (.list fragments range) →
      range.stop.column ≠ next.start) : Stops pending (next :: rest) := by
  rintro term isTerm _ ⟨⟩ taken
  cases term with
  | list fragments range => exact noList fragments range isTerm taken.2.symm
  | variableTerm | variableAttribute | string => exact nomatch isString.symm.trans taken.1

theorem range_union_subject (placed : PlacedToken) :
    placed.range.union (.columns (placed.start + 2) placed.stop) = placed.range := by
  simp [PlacedToken.range, Range.union_columns]

/-- A term held back is a fragment. -/
theorem Started.fragment {tokens : List PlacedToken} {term : Term}
    (started : Started tokens (some term)) : Fragment tokens term.fragment term.tail := by
  cases started with
  | list opens derived closes => exact .group opens derived closes
  | variableTerm derived =>
      rw [← List.append_nil tokens]
      exact .variableTerm derived .none
  | @variableAttribute placed kind name isAttribute =>
      have derived := Fragment.variableAttribute isAttribute .none
      rw [range_union_subject] at derived
      exact derived
  | string derived =>
      rw [← List.append_nil tokens]
      exact .string derived .whole

/-- Fragments behind a term that nothing extends. -/
theorem fragments_flush {tokens rest : List PlacedToken} {pending : Option Term}
    {fragments : List Expr} (started : Started tokens pending) (stops : Stops pending rest)
    (others : Fragments rest fragments) :
    Fragments (tokens ++ rest) (flush pending fragments) := by
  cases pending with
  | none =>
      cases started
      exact others
  | some term => exact .cons started.fragment (stops term rfl) others

/-- A group that is read behind a variable is its subscript. -/
theorem subscripted_withSubscript {bare : VariableSymbol} {opener close : PlacedToken}
    {contents : Contents} {arguments : List Expr} (opens : opener.token = .openParen)
    (adjacent : bare.range.stop.column = opener.start) (proper : contents.Proper)
    (closed : contents.close? = some close)
    (derived : Arguments contents.tokens arguments close.stop) :
    Subscripted bare (opener :: contents.tokens) (withSubscript bare contents arguments close)
      .closed := by
  have isVoid_iff := contents.isVoid_iff (by simp [closed])
  unfold withSubscript
  split
  next isVoid =>
    have length := isVoid_iff.mp isVoid
    unfold Contents.isVoid at isVoid
    split at isVoid
    next placed =>
      cases closed
      exact .empty opens adjacent.symm (proper.2 close rfl)
    next => exact nomatch isVoid
  next occupied => exact .some opens adjacent.symm derived (mt isVoid_iff.mpr occupied)

/-- A number fits into a word when it is below the 31st power of two. -/
theorem ofInt?_natCast_eq_some {value : Nat} {word : Int32} :
    Word.ofInt? value = some word ↔ value < 2147483648 ∧ .ofInt value = word := by
  have least : Int32.minValue.toInt = -2147483648 := rfl
  have greatest : Int32.maxValue.toInt = 2147483647 := rfl
  unfold Word.ofInt?
  split
  next fits => simp; omega
  next exceeds => simp; omega

/-! ## Bounds of a part -/

/-- Contents that are closed behind an asterisk are the asterisk alone. -/
theorem afterStar?_closing {contents after : Contents} {close : PlacedToken}
    (found : contents.afterStar? = some after) (closes : closing after = .ok close) :
    ∃ star, contents = .last (.token star .nil) (some close) ∧ star.token = .star := by
  unfold Contents.afterStar? at found
  split at found
  next star rest ending =>
    split at found
    next isStar =>
      cases found
      unfold closing at closes
      split at closes <;> cases closes
      rename_i same
      cases same
      exact ⟨star, rfl, isStar⟩
    next => exact nomatch found
  next star rest separator more =>
    split at found
    next isStar =>
      cases found
      unfold closing at closes
      split at closes <;> cases closes
      rename_i same
      cases same
    next => exact nomatch found
  next => exact nomatch found

/-- Contents in which no asterisk is found do not begin with one. -/
theorem head_ne_star {contents : Contents} (proper : contents.Proper)
    (missing : contents.afterStar? = none) :
    ∀ first ∈ contents.tokens.head?, first.token ≠ .star := by
  have opensNone {opener : PlacedToken}
      (opens : opener.token = .openParen ∨ opener.token = .createdName) :
      opener.token ≠ .star := by
    rcases opens with opens | opens <;> simp [opens]
  rintro first isFirst isStar
  cases contents with
  | last run close =>
      cases run with
      | nil =>
          cases close with
          | none => exact nomatch isFirst
          | some _ =>
              cases isFirst
              have closes : first.token = .closeParen := proper.2 first rfl
              exact nomatch closes.symm.trans isStar
      | token placed rest =>
          cases isFirst
          simp [Contents.afterStar?, isStar] at missing
      | group opener inner rest =>
          cases isFirst
          exact opensNone proper.1.1 isStar
  | comma run placed rest =>
      cases run with
      | nil =>
          cases isFirst
          exact nomatch proper.2.1.symm.trans isStar
      | token placed rest =>
          cases isFirst
          simp [Contents.afterStar?, isStar] at missing
      | group opener inner rest =>
          cases isFirst
          exact opensNone proper.1.1 isStar

/-! ## Reading -/

/-- A fragment of one token behind a term that nothing extends. -/
theorem derives_token {tokens : List PlacedToken} {pending : Option Term}
    (started : Started tokens pending) {placed : PlacedToken} {rest : Run} {fragment : Expr}
    (derived : Fragment [placed] fragment .closed) (noParenthesis : placed.token ≠ .openParen)
    (noString : ∀ raw, placed.token ≠ .string raw)
    (further : Yields (readRun none rest) (Fragments rest.tokens)) :
    Yields (do return flush pending (fragment :: (← readRun none rest)))
      (Fragments (tokens ++ placed :: rest.tokens)) :=
  further.bind fun _ others =>
    yields_ok (fragments_flush started (stops_cons pending rest.tokens noParenthesis noString)
      (.cons derived (endsBefore_closed _) others))

/-- A term that may go on, behind a term that nothing extends. -/
theorem derives_term {tokens : List PlacedToken} {pending : Option Term}
    (started : Started tokens pending) {behind : List PlacedToken} (stops : Stops pending behind)
    {result : Except ReadError (List Expr)} (further : Yields result (Fragments behind)) :
    Yields (do return flush pending (← result)) (Fragments (tokens ++ behind)) :=
  further.bind fun _ others => yields_ok (fragments_flush started stops others)

mutual

theorem derives_readRun :
    ∀ (run : Run) {tokens : List PlacedToken} {pending : Option Term},
      run.Proper → Started tokens pending →
        Yields (readRun pending run) (Fragments (tokens ++ run.tokens))
  | .nil, _, _, _, started => by
      rw [readRun.eq_def]
      exact yields_ok (fragments_flush started (stops_nil _) .nil)
  | .group opener contents rest, tokens, pending, proper, started => by
      obtain ⟨opens, properContents, properRest⟩ := proper
      have readRest {tokens : List PlacedToken} {pending : Option Term}
          (started : Started tokens pending) := derives_readRun rest properRest started
      have readOthers : Yields (readRun none rest) (Fragments rest.tokens) := readRest .nothing
      rw [readRun.eq_def]
      dsimp only
      split
      next bare isAdjacent =>
        obtain ⟨isOpen, adjacent⟩ := of_decide_eq_true isAdjacent
        cases started with | variableTerm derived =>
        refine (derives_readArguments contents properContents).bind fun answer subscript => ?_
        refine readOthers.bind fun _ others => yields_ok ?_
        have whole := subscripted_withSubscript isOpen (Option.some.inj adjacent) properContents
          subscript.2 subscript.1
        have fragments := Fragments.cons (.variableTerm derived whole) (endsBefore_closed _) others
        simpa [Run.tokens] using fragments
      next kind bare range isAdjacent =>
        obtain ⟨isOpen, adjacent⟩ := of_decide_eq_true isAdjacent
        cases started with | variableAttribute isAttribute =>
        refine (derives_readArguments contents properContents).bind fun answer subscript => ?_
        refine readOthers.bind fun _ others => yields_ok ?_
        have whole := subscripted_withSubscript isOpen (Option.some.inj adjacent) properContents
          subscript.2 subscript.1
        have fragments :=
          Fragments.cons (.variableAttribute isAttribute whole) (endsBefore_closed _) others
        simpa [Run.tokens] using fragments
      next duplication chain start stop isAdjacent =>
        obtain ⟨isOpen, adjacent⟩ := of_decide_eq_true isAdjacent
        cases started with | string derived =>
        refine (derives_readSelection contents properContents isOpen
          (Option.some.inj adjacent).symm).bind fun answer selected => ?_
        refine readOthers.bind fun _ others => yields_ok ?_
        have fragments := Fragments.cons (.string derived selected) (endsBefore_closed _) others
        simpa [Run.tokens] using fragments
      next pending _ _ notVariable notAttribute notString =>
        split
        next isCreated =>
          refine (derives_readName contents properContents).bind fun answer named => ?_
          obtain ⟨inner, pieces, closed, closes⟩ := named
          have stops : Stops pending (opener :: (contents.tokens ++ rest.tokens)) :=
            stops_cons pending _ (by simp [isCreated]) (by simp [isCreated])
          refine derives_term started stops ?_
          have held := readRest (.variableTerm (.created isCreated pieces closes))
          simpa [Run.tokens, closed] using held
        next notCreated =>
          have isOpen := opens.resolve_right notCreated
          refine (derives_readList contents properContents).bind fun answer listed => ?_
          obtain ⟨inner, fragments, closed, closes⟩ := listed
          have stops : Stops pending (opener :: (contents.tokens ++ rest.tokens)) := by
            apply stops_open isOpen
            · rintro reference rfl adjacent
              exact notVariable reference rfl (decide_eq_true ⟨isOpen, congrArg some adjacent⟩)
            · rintro kind reference range rfl adjacent
              exact notAttribute kind reference range rfl
                (decide_eq_true ⟨isOpen, congrArg some adjacent⟩)
            · rintro duplication chain start stop rfl adjacent
              exact notString duplication chain start stop rfl
                (decide_eq_true ⟨isOpen, congrArg some adjacent⟩)
          refine derives_term started stops ?_
          have held := readRest (.list isOpen fragments closes)
          simpa [Run.tokens, closed] using held
  | .token placed rest, tokens, pending, ⟨plain, proper⟩, started => by
      have readRest {tokens : List PlacedToken} {pending : Option Term}
          (started : Started tokens pending) := derives_readRun rest proper started
      have readOthers : Yields (readRun none rest) (Fragments rest.tokens) := readRest .nothing
      rw [readRun.eq_def]
      dsimp only
      cases token : placed.token with
      | integer value =>
          dsimp only
          split
          next word fits =>
            obtain ⟨bounded, rfl⟩ := ofInt?_natCast_eq_some.mp fits
            exact derives_token started (.integer token bounded) (by simp [token])
              (by simp [token]) readOthers
          next => exact yields_error _
      | plus | minus | star | slash | dot | identifier name =>
          have derived : Fragment [placed] _ .closed := .word (by rw [token]; rfl)
          exact derives_token started derived (by simp [token]) (by simp [token]) readOthers
      | attributeOf kind ofVariable name =>
          have stops : Stops pending (placed :: rest.tokens) :=
            stops_cons pending _ (by simp [token]) (by simp [token])
          cases ofVariable with
          | false =>
              exact derives_token started (.symbolAttribute token) (by simp [token])
                (by simp [token]) readOthers
          | true => exact derives_term started stops (readRest (.variableAttribute token))
      | variableName name =>
          have stops : Stops pending (placed :: rest.tokens) :=
            stops_cons pending _ (by simp [token]) (by simp [token])
          exact derives_term started stops (readRest (.variableTerm (.basic token)))
      | string raw =>
          dsimp only
          split
          next fragments range isAdjacent =>
            have adjacent := Option.some.inj (of_decide_eq_true isAdjacent)
            cases started with | list opens derived closes =>
            have held := readRest (.string (.repeated opens derived closes token adjacent.symm))
            simpa [Run.tokens, Range.columns] using held
          next pending _ _ notList =>
            have stops : Stops pending (placed :: rest.tokens) := by
              apply stops_string token
              rintro fragments range rfl adjacent
              exact notList fragments range rfl (decide_eq_true (congrArg some adjacent))
            exact derives_term started stops (readRest (.string (.once token)))
      | createdName | openParen | closeParen | comma => exact yields_error _

theorem derives_readList :
    ∀ contents : Contents, contents.Proper →
      Yields (readList contents) fun answer =>
        ∃ tokens, Fragments tokens answer.1 ∧ contents.tokens = tokens ++ [answer.2] ∧
          answer.2.token = .closeParen
  | .last run (some close), ⟨proper, closes⟩ => by
      rw [readList]
      refine (derives_readRun run proper .nothing).bind fun _ fragments => yields_ok ?_
      exact ⟨run.tokens, fragments, rfl, closes close rfl⟩
  | .last run none, _ => by
      rw [readList]
      exact yields_bind_error _
  | .comma run placed _, _ => by
      rw [readList]
      exact yields_bind_error _

theorem derives_readArguments :
    ∀ contents : Contents, contents.Proper →
      Yields (readArguments contents) fun answer =>
        Arguments contents.tokens answer.1 answer.2.stop ∧ contents.close? = some answer.2
  | .last run (some close), ⟨proper, closes⟩ => by
      rw [readArguments]
      refine (derives_readRun run proper .nothing).bind fun _ fragments => yields_ok ?_
      rw [argument_eq]
      exact ⟨.last fragments (closes close rfl), rfl⟩
  | .last run none, _ => by
      rw [readArguments]
      exact yields_bind_error _
  | .comma run placed rest, ⟨proper, divides, properRest⟩ => by
      rw [readArguments]
      refine (derives_readRun run proper .nothing).bind fun _ fragments => ?_
      refine (derives_readArguments rest properRest).bind fun _ more => yields_ok ?_
      rw [argument_eq]
      exact ⟨.comma fragments divides more.1, more.2⟩

theorem derives_readSelection :
    ∀ (contents : Contents) {opener : PlacedToken} {stop : Nat}, contents.Proper →
      opener.token = .openParen → opener.start = stop →
      Yields (readSelection contents) fun answer =>
        Selected stop (opener :: contents.tokens) answer.1 answer.2.stop .closed
  | .last run (some close), _, _, _, _, _ => by
      rw [readSelection]
      exact yields_bind_error _
  | .last run none, _, _, _, _, _ => by
      rw [readSelection]
      exact yields_bind_error _
  | .comma run placed rest, opener, stop, ⟨proper, divides, properRest⟩, opens, adjacent => by
      rw [readSelection]
      refine (derives_readRun run proper .nothing).bind fun _ fragments => ?_
      dsimp only
      split
      next after found =>
        have closes : Yields (closing after) fun close => closing after = .ok close :=
          fun _ closes => closes
        refine closes.bind fun close closes => yields_ok ?_
        obtain ⟨star, rfl, isStar⟩ := afterStar?_closing found closes
        rw [argument_eq]
        exact .toEnd opens adjacent fragments divides isStar (properRest.2 close rfl)
      next missing =>
        refine (derives_readList rest properRest).bind fun answer listed => yields_ok ?_
        obtain ⟨others, derived, closed, closes⟩ := listed
        have first : ∀ first ∈ others.head?, first.token ≠ .star := by
          rintro first isFirst
          apply head_ne_star properRest missing first
          rw [closed, List.head?_append, Option.mem_def.mp isFirst]
          rfl
        have selected := Selected.counted opens adjacent fragments divides derived first closes
        simpa [Contents.tokens, closed, argument_eq] using selected

theorem derives_readName :
    ∀ contents : Contents, contents.Proper →
      Yields (readName contents) fun answer =>
        ∃ tokens, Pieces none tokens answer.1 ∧ contents.tokens = tokens ++ [answer.2] ∧
          answer.2.token = .closeParen
  | .last run (some close), ⟨proper, closes⟩ => by
      rw [readName]
      refine (derives_readPieces run none proper).bind fun _ pieces => yields_ok ?_
      exact ⟨run.tokens, pieces, rfl, closes close rfl⟩
  | .last run none, _ => by
      rw [readName]
      exact yields_bind_error _
  | .comma run placed _, _ => by
      rw [readName]
      exact yields_bind_error _

theorem derives_readPieces :
    ∀ (run : Run) (behind : Option Nat), run.Proper →
      Yields (readPieces behind run) (Pieces behind run.tokens)
  | .nil, _, _ => by
      rw [readPieces]
      exact yields_ok .nil
  | .group opener _ _, _, _ => by
      rw [readPieces]
      exact yields_error _
  | .token placed rest, behind, ⟨plain, proper⟩ => by
      have readRest (behind : Option Nat) := derives_readPieces rest behind proper
      rw [readPieces]
      cases token : placed.token with
      | identifier name =>
          exact (readRest _).bind fun _ others => yields_ok (.identifier token others)
      | integer value =>
          exact (readRest _).bind fun _ others => yields_ok (.integer token others)
      | dot =>
          dsimp only
          split
          next ends =>
            rintro chain read
            rw [ends]
            exact .endOfName token (readRest none chain read)
          next piece =>
            exact (readRest _).bind fun _ others => yields_ok (.period token piece others)
      | variableName name =>
          dsimp only
          split
          next opener contents after =>
            split
            next isAdjacent =>
              obtain ⟨properContents, properAfter⟩ := proper.2
              refine (derives_readArguments contents properContents).bind fun answer subscript => ?_
              refine (derives_readPieces after _ properAfter).bind fun _ others => yields_ok ?_
              have whole : Subscripted (basicVariable name placed.start placed) _ _ _ :=
                subscripted_withSubscript isAdjacent.1 isAdjacent.2.symm properContents
                  subscript.2 subscript.1
              have pieces : Pieces behind _ _ :=
                .variableItem token whole (endsBefore_closed _) others
              simpa [Run.tokens] using pieces
            next => exact yields_error _
          next notGroup =>
            refine (readRest _).bind fun _ others => yields_ok ?_
            have stops : (Tail.parenthesis placed.stop).EndsBefore rest.tokens := by
              rintro next isNext ⟨isOpen, _⟩
              cases rest with
              | nil => exact nomatch isNext
              | token following rest =>
                  cases isNext
                  simp [Run.Proper, Token.IsPlain, isOpen] at proper
              | group opener contents rest => exact notGroup opener contents rest rfl
            exact .variableItem token .none stops others
      | plus | minus | star | slash | attributeOf _ _ _ | string _ | createdName | openParen
      | closeParen | comma => exact yields_error _

end

/-- The tokens of a whole source are derived as they are read. -/
theorem derives_readSource (tokens : List PlacedToken) :
    Yields (readSource (.ofTokens tokens)) (Fragments tokens) := by
  have proper := (Contents.proper_arrange tokens).1
  have whole (unclosed : (Contents.ofTokens tokens).close? = none) :=
    Contents.tokens_ofTokens unclosed
  change (Contents.ofTokens tokens).Proper at proper
  unfold readSource
  split
  next run source =>
    rw [source] at proper whole
    have isWhole : run.tokens = tokens := by simpa [Contents.tokens] using whole rfl
    simpa [isWhole] using derives_readRun run proper.1 .nothing
  next => exact yields_bind_error _
  next => exact yields_bind_error _

end ConditionalAssembly.Reader
