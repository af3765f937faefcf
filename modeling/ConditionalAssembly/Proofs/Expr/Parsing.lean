import Mathlib
import ConditionalAssembly.Proofs.Expr.Derivation

/-!
# Reading and derivations

The tokens of a derivation are arranged into groups that are read as the
derivation says, wherever they stand.
-/

namespace ConditionalAssembly.Reader

open Grammar

/-! ## Terms that nothing extends -/

/-- A term held back that nothing extends is the first fragment. -/
theorem readRun_of_stops {pending : Option Term} {run : Run} (stops : Stops pending run.tokens) :
    readRun pending run = do return flush pending (← readRun none run) := by
  cases run with
  | nil =>
      rw [readRun.eq_def, readRun.eq_def]
      rfl
  | group opener contents rest =>
      rw [readRun.eq_def pending, readRun.eq_def none]
      dsimp only
      split
      next reference isAdjacent =>
        obtain ⟨isOpen, adjacent⟩ := of_decide_eq_true isAdjacent
        exact absurd ⟨isOpen, (Option.some.inj adjacent).symm⟩ (stops _ rfl opener rfl)
      next kind reference range isAdjacent =>
        obtain ⟨isOpen, adjacent⟩ := of_decide_eq_true isAdjacent
        exact absurd ⟨isOpen, (Option.some.inj adjacent).symm⟩ (stops _ rfl opener rfl)
      next duplication chain start stop isAdjacent =>
        obtain ⟨isOpen, adjacent⟩ := of_decide_eq_true isAdjacent
        exact absurd ⟨isOpen, (Option.some.inj adjacent).symm⟩ (stops _ rfl opener rfl)
      next =>
        split <;> simp [flush]
  | token placed rest =>
      rw [readRun.eq_def pending, readRun.eq_def none]
      dsimp only
      cases token : placed.token with
      | integer value =>
          dsimp only
          split
          next => simp [flush]
          next => rfl
      | plus | minus | star | slash | dot | identifier name | variableName name => simp [flush]
      | attributeOf kind ofVariable name => cases ofVariable <;> simp [flush]
      | string raw =>
          dsimp only
          split
          next fragments range isAdjacent =>
            have adjacent := Option.some.inj (of_decide_eq_true isAdjacent)
            exact absurd ⟨⟨raw, token⟩, adjacent.symm⟩ (stops _ rfl placed rfl)
          next => simp [flush]
      | createdName | openParen | closeParen | comma => rfl

/-! ## Tokens that are read alike wherever they stand -/

/-- The tokens are read as these fragments when nothing follows them. -/
def ReadsFragments (tokens : List PlacedToken) (fragments : List Expr) : Prop :=
  ∃ piece, Contents.Composes tokens piece ∧ readRun none (piece .nil) = .ok fragments

/-- The tokens are read as a fragment in front of others, unless they go on. -/
def ReadsFragment (tokens : List PlacedToken) (fragment : Expr) (tail : Tail) : Prop :=
  ∃ piece, Contents.Composes tokens piece ∧ ∀ run, tail.EndsBefore run.tokens →
    readRun none (piece run) = do return fragment :: (← readRun none run)

/-- The tokens are read as a term that is held back. -/
def ReadsTerm (tokens : List PlacedToken) (term : Term) : Prop :=
  ∃ piece, Contents.Composes tokens piece ∧
    ∀ run, readRun none (piece run) = readRun (some term) run

/-- The tokens of a group are read as arguments. -/
def ReadsArguments (tokens : List PlacedToken) (arguments : List Expr) (stop : Nat) : Prop :=
  ∃ contents close, Contents.Encloses tokens contents ∧
    readArguments contents = .ok (arguments, close) ∧ close.stop = stop

/-- The tokens are read as pieces of a created name. -/
def ReadsPieces (behind : Option Nat) (tokens : List PlacedToken) (chain : Chain) : Prop :=
  ∃ piece, Contents.Composes tokens piece ∧ readPieces behind (piece .nil) = .ok chain

/-- The tokens of a subscript are a group that is read as its arguments, if there are any. -/
inductive ReadsSubscript (bare : VariableSymbol) :
    List PlacedToken → VariableSymbol → Tail → Prop where
  | absent : ReadsSubscript bare [] bare (.parenthesis bare.range.stop.column)
  | group {opener close : PlacedToken} {tokens : List PlacedToken} {contents : Contents}
      {arguments : List Expr} :
      opener.token = .openParen → opener.start = bare.range.stop.column →
      Contents.Encloses tokens contents → readArguments contents = .ok (arguments, close) →
      ReadsSubscript bare (opener :: tokens) (withSubscript bare contents arguments close) .closed

/-- The tokens of the bounds of a part are a group that is read as bounds, if there are any. -/
inductive ReadsSelection (stop : Nat) : List PlacedToken → Selection → Nat → Tail → Prop where
  | whole : ReadsSelection stop [] .whole stop (.parenthesis stop)
  | group {opener close : PlacedToken} {tokens : List PlacedToken} {contents : Contents}
      {selection : Selection} :
      opener.token = .openParen → opener.start = stop →
      Contents.Encloses tokens contents → readSelection contents = .ok (selection, close) →
      ReadsSelection stop (opener :: tokens) selection close.stop .closed

/-- A term is the fragment it stands for unless it goes on. -/
theorem ReadsTerm.readsFragment {tokens : List PlacedToken} {term : Term}
    (reads : ReadsTerm tokens term) : ReadsFragment tokens term.fragment term.tail := by
  obtain ⟨piece, composed, readsTerm⟩ := reads
  refine ⟨piece, composed, ?_⟩
  intro run ends
  have stops : Stops (some term) run.tokens := by
    rintro _ ⟨⟩
    exact ends
  rw [readsTerm, readRun_of_stops stops]
  rfl

theorem readsFragment_token {placed : PlacedToken} {fragment : Expr}
    (plain : placed.token.IsPlain)
    (reads : ∀ run, readRun none (.token placed run) =
      do return fragment :: (← readRun none run)) :
    ReadsFragment [placed] fragment .closed :=
  ⟨.token placed, Contents.composes_token plain, fun run _ => reads run⟩

theorem readsTerm_token {placed : PlacedToken} {term : Term} (plain : placed.token.IsPlain)
    (reads : ∀ run, readRun none (.token placed run) = readRun (some term) run) :
    ReadsTerm [placed] term :=
  ⟨.token placed, Contents.composes_token plain, reads⟩

/-- An attribute of a variable. -/
theorem readsTerm_attribute {placed : PlacedToken} {kind : Attribute} {name : String}
    (token : placed.token = .attributeOf kind true name) :
    ReadsTerm [placed] (.variableAttribute kind (basicVariable name (placed.start + 2) placed)
      placed.range) := by
  apply readsTerm_token (by simp [Token.IsPlain, token])
  intro run
  rw [readRun.eq_def]
  simp [token, flush, PlacedToken.range]

/-- A list in parentheses. -/
theorem readsTerm_list {opener close : PlacedToken} {tokens : List PlacedToken}
    {fragments : List Expr} (opens : opener.token = .openParen)
    (reads : ReadsFragments tokens fragments) (closes : close.token = .closeParen) :
    ReadsTerm (opener :: (tokens ++ [close]))
      (.list fragments (.columns opener.start close.stop)) := by
  obtain ⟨piece, composed, readsAll⟩ := reads
  refine ⟨_, Contents.composes_group (.inl opens) (composed.closed closes), ?_⟩
  intro run
  rw [readRun.eq_def]
  simp [opens, readList, readsAll, flush]
  rfl

/-- A string behind the list that repeats it. -/
theorem readsTerm_repeated {tokens : List PlacedToken} {fragments : List Expr} {range : Range}
    {placed : PlacedToken} {raw : String} (reads : ReadsTerm tokens (.list fragments range))
    (token : placed.token = .string raw) (adjacent : placed.start = range.stop.column) :
    ReadsTerm (tokens ++ [placed])
      (.string (some (.unresolved fragments range)) (.ofQuoted (placed.start + 1) raw.toList)
        range.start.column placed.stop) := by
  obtain ⟨piece, composed, readsHeld⟩ := reads
  have plain : placed.token.IsPlain := by simp [Token.IsPlain, token]
  refine ⟨_, composed.append (Contents.composes_token plain), ?_⟩
  intro run
  rw [readsHeld, readRun.eq_def]
  simp [token, adjacent, Term.stop]

/-- A variable with a created name. -/
theorem readsTerm_created {opener close : PlacedToken} {tokens : List PlacedToken} {chain : Chain}
    (opens : opener.token = .createdName) (reads : ReadsPieces none tokens chain)
    (closes : close.token = .closeParen) :
    ReadsTerm (opener :: (tokens ++ [close]))
      (.variableTerm ⟨.created chain, [], .columns opener.start close.stop⟩) := by
  obtain ⟨piece, composed, readsAll⟩ := reads
  refine ⟨_, Contents.composes_group (.inr opens) (composed.closed closes), ?_⟩
  intro run
  rw [readRun.eq_def]
  simp [opens, readName, readsAll, flush]
  rfl

/-! ## Terms with what they go on with -/

/-- A term that goes on with a group is complete behind it. -/
theorem ReadsTerm.readsFragment_group {tokens inner : List PlacedToken} {term : Term}
    {opener : PlacedToken} {contents : Contents} {fragment : Expr} (reads : ReadsTerm tokens term)
    (opens : opener.token = .openParen) (enclosed : Contents.Encloses inner contents)
    (readsGroup : ∀ run, readRun (some term) (.group opener contents run) =
      do return fragment :: (← readRun none run)) :
    ReadsFragment (tokens ++ opener :: inner) fragment .closed := by
  obtain ⟨piece, composed, readsHeld⟩ := reads
  refine ⟨_, composed.append (Contents.composes_group (.inl opens) enclosed), ?_⟩
  rintro run -
  rw [readsHeld, readsGroup]

section Subscript

variable {bare reference : VariableSymbol} {tokens subscript : List PlacedToken} {tail : Tail}

/-- A subscript stays with the variable in front of it. -/
theorem ReadsSubscript.readsFragment_variable
    (reads : ReadsSubscript bare subscript reference tail)
    (readsBare : ReadsTerm tokens (.variableTerm bare)) :
    ReadsFragment (tokens ++ subscript) (.variableTerm reference none) tail := by
  cases reads with
  | absent =>
      rw [List.append_nil]
      exact readsBare.readsFragment
  | group opens adjacent enclosed readsInner =>
      apply readsBare.readsFragment_group opens enclosed
      intro run
      rw [readRun.eq_def]
      simp [opens, adjacent, readsInner, Term.stop]
      rfl

/-- A subscript stays with the variable that an attribute is asked of. -/
theorem ReadsSubscript.readsFragment_attribute {placed : PlacedToken} {kind : Attribute}
    (reads : ReadsSubscript bare subscript reference tail)
    (readsBare : ReadsTerm [placed] (.variableAttribute kind bare placed.range))
    (covered : placed.range.union bare.range = placed.range) :
    ReadsFragment (placed :: subscript)
      (.variableAttribute kind reference (placed.range.union reference.range) none) tail := by
  cases reads with
  | absent =>
      rw [covered]
      exact readsBare.readsFragment
  | group opens adjacent enclosed readsInner =>
      apply readsBare.readsFragment_group opens enclosed
      intro run
      rw [readRun.eq_def]
      simp [opens, adjacent, readsInner, Term.stop]
      rfl

end Subscript

/-- The bounds of a part stay with the string in front of them. -/
theorem ReadsSelection.readsFragment {tokens bounds : List PlacedToken}
    {duplication : Option Expr} {chain : Chain} {start stop last : Nat} {selection : Selection}
    {tail : Tail} (readsTerm : ReadsTerm tokens (.string duplication chain start stop))
    (reads : ReadsSelection stop bounds selection last tail) :
    ReadsFragment (tokens ++ bounds)
      (.string ⟨duplication, chain, selection⟩ (.columns start last) none) tail := by
  cases reads with
  | whole =>
      rw [List.append_nil]
      exact readsTerm.readsFragment
  | group opens adjacent enclosed readsBounds =>
      apply readsTerm.readsFragment_group opens enclosed
      intro run
      rw [readRun.eq_def]
      simp [opens, adjacent, readsBounds, Term.stop]
      rfl

/-- A void group leaves a variable without arguments. -/
theorem readsSubscript_empty {bare : VariableSymbol} {opener close : PlacedToken}
    (opens : opener.token = .openParen) (adjacent : opener.start = bare.range.stop.column)
    (closes : close.token = .closeParen) :
    ReadsSubscript bare [opener, close]
      ⟨bare.name, [], .columns bare.range.start.column close.stop⟩ .closed := by
  have enclosed := Contents.composes_nil.closed closes
  have readsNothing : readArguments (.last .nil (some close)) =
      .ok ([argument [] close], close) := by
    rw [readArguments, readRun]
    rfl
  exact .group opens adjacent enclosed readsNothing

/-- Arguments behind a variable are its subscript. -/
theorem ReadsArguments.readsSubscript {bare : VariableSymbol} {opener : PlacedToken}
    {tokens : List PlacedToken} {arguments : List Expr} {stop : Nat}
    (opens : opener.token = .openParen) (adjacent : opener.start = bare.range.stop.column)
    (reads : ReadsArguments tokens arguments stop) (occupied : tokens.length ≠ 1) :
    ReadsSubscript bare (opener :: tokens)
      ⟨bare.name, arguments, .columns bare.range.start.column stop⟩ .closed := by
  obtain ⟨contents, close, enclosed, readsAll, rfl⟩ := reads
  have notVoid : ¬ contents.isVoid := by
    rw [contents.isVoid_iff enclosed.isSome_close?, enclosed.tokens_eq]
    exact occupied
  have subscripted : ReadsSubscript bare _ _ _ := .group opens adjacent enclosed readsAll
  simpa [withSubscript, notVoid] using subscripted

/-- Bounds up to the end of a string. -/
theorem readsSelection_toEnd {stop : Nat} {opener comma star close : PlacedToken}
    {tokens : List PlacedToken} {fragments : List Expr} (opens : opener.token = .openParen)
    (adjacent : opener.start = stop) (reads : ReadsFragments tokens fragments)
    (divides : comma.token = .comma) (isStar : star.token = .star)
    (closes : close.token = .closeParen) :
    ReadsSelection stop (opener :: (tokens ++ [comma, star, close]))
      ⟨some (.unresolved fragments (argumentRange fragments comma)), none, true⟩ close.stop
      .closed := by
  obtain ⟨piece, composed, readsAll⟩ := reads
  have plain : star.token.IsPlain := by simp [Token.IsPlain, isStar]
  have enclosed := composed.divided divides ((Contents.composes_token plain).closed closes)
  apply ReadsSelection.group opens adjacent enclosed
  rw [readSelection, readsAll]
  simp only [Contents.afterStar?, isStar, ← argument_eq]
  rfl

/-- Bounds that count the characters of a part. -/
theorem readsSelection_counted {stop : Nat} {opener comma close : PlacedToken}
    {tokens more : List PlacedToken} {fragments others : List Expr}
    (opens : opener.token = .openParen) (adjacent : opener.start = stop)
    (reads : ReadsFragments tokens fragments) (divides : comma.token = .comma)
    (readsMore : ReadsFragments more others) (noStar : ∀ first ∈ more.head?, first.token ≠ .star)
    (closes : close.token = .closeParen) :
    ReadsSelection stop (opener :: (tokens ++ comma :: (more ++ [close])))
      ⟨some (.unresolved fragments (argumentRange fragments comma)),
        some (.unresolved others (argumentRange others close)), false⟩ close.stop .closed := by
  obtain ⟨piece, composed, readsAll⟩ := reads
  obtain ⟨piece', composedMore, readsOthers⟩ := readsMore
  have enclosed := composed.divided divides (composedMore.closed closes)
  apply ReadsSelection.group opens adjacent enclosed
  have missing : (Contents.last (piece' .nil) (some close)).afterStar? = none := by
    have follows : (piece' .nil).tokens = more := by
      simpa [Run.tokens] using composedMore.tokens_eq .nil
    rw [← follows] at noStar
    cases run : piece' .nil with
    | nil | group => rfl
    | token placed rest =>
        rw [run] at noStar
        simp [Contents.afterStar?, noStar placed rfl]
  rw [readSelection, readsAll]
  simp only [missing, readList, readsOthers, ← argument_eq]
  rfl

/-! ## Pieces of created names -/

theorem readsPieces_token {behind after : Option Nat} {placed : PlacedToken}
    {rest : List PlacedToken} {chain others : Chain} (plain : placed.token.IsPlain)
    (reads : ReadsPieces after rest others)
    (first : ∀ run, readPieces after run = .ok others →
      readPieces behind (.token placed run) = .ok chain) :
    ReadsPieces behind (placed :: rest) chain := by
  obtain ⟨piece, composed, readsOthers⟩ := reads
  exact ⟨_, (Contents.composes_token plain).append composed, first _ readsOthers⟩

/-- A variable with its subscript in front of other pieces. -/
theorem ReadsSubscript.readsPieces {behind : Option Nat} {placed : PlacedToken} {name : String}
    {subscript rest : List PlacedToken} {reference : VariableSymbol} {tail : Tail}
    {chain : Chain} (token : placed.token = .variableName name)
    (reads : ReadsSubscript (basicVariable name placed.start placed) subscript reference tail)
    (readsRest : ReadsPieces (some reference.range.stop.column) rest chain) :
    ReadsPieces behind (placed :: (subscript ++ rest)) (.variableItem reference :: chain) := by
  have plain : placed.token.IsPlain := by simp [Token.IsPlain, token]
  obtain ⟨piece, composed, readsOthers⟩ := readsRest
  cases reads with
  | absent =>
      refine ⟨_, (Contents.composes_token plain).append composed, ?_⟩
      change readPieces (some placed.stop) (piece .nil) = _ at readsOthers
      rw [readPieces]
      simp only [token]
      split
      next run =>
        rw [run, readPieces] at readsOthers
        cases readsOthers
      next =>
        rw [readsOthers]
        rfl
  | @group opener close _ _ _ opens adjacent enclosed readsInner =>
      refine ⟨_, (Contents.composes_token plain).append
        ((Contents.composes_group (.inl opens) enclosed).append composed), ?_⟩
      change readPieces (some close.stop) (piece .nil) = _ at readsOthers
      change opener.start = placed.stop at adjacent
      rw [readPieces]
      simp only [token, opens, adjacent, readsInner, and_self, if_true]
      change (do return _ :: (← readPieces (some close.stop) (piece .nil))) = _
      rw [readsOthers]
      rfl

/-! ## Derivations -/

mutual

theorem reads_fragments {tokens : List PlacedToken} {fragments : List Expr} :
    Fragments tokens fragments → ReadsFragments tokens fragments
  | .nil => ⟨_, Contents.composes_nil, by rw [readRun]; rfl⟩
  | .cons first ends others => by
      obtain ⟨piece, composed, reads⟩ := reads_fragment first
      obtain ⟨piece', composedOthers, readsOthers⟩ := reads_fragments others
      refine ⟨_, composed.append composedOthers, ?_⟩
      have follows : (piece' .nil).tokens = _ := composedOthers.tokens_eq .nil
      rw [Run.tokens, List.append_nil] at follows
      rw [reads (piece' .nil) (by rwa [follows]), readsOthers]
      rfl

theorem reads_fragment {tokens : List PlacedToken} {fragment : Expr} {tail : Tail} :
    Fragment tokens fragment tail → ReadsFragment tokens fragment tail
  | @Fragment.integer placed value token bounded => by
      apply readsFragment_token (by simp [Token.IsPlain, token])
      intro run
      have fits := ofInt?_natCast_eq_some.mpr ⟨bounded, rfl⟩
      rw [readRun.eq_def]
      simp only [token, fits]
      rfl
  | @Fragment.word placed name isWord => by
      cases token : placed.token with
      | plus | minus | star | slash | dot | identifier name =>
          rw [token] at isWord
          cases isWord
          apply readsFragment_token (by simp [Token.IsPlain, token])
          intro run
          rw [readRun.eq_def]
          simp only [token]
          rfl
      | _ => simp [token, Token.word?] at isWord
  | @Fragment.symbolAttribute placed kind name token => by
      apply readsFragment_token (by simp [Token.IsPlain, token])
      intro run
      rw [readRun.eq_def]
      simp only [token]
      rfl
  | @Fragment.variableAttribute placed _ name _ _ _ token subscripted =>
      (reads_subscript subscripted).readsFragment_attribute (readsTerm_attribute token)
        (range_union_subject placed)
  | .variableTerm named subscripted =>
      (reads_subscript subscripted).readsFragment_variable (reads_variable named)
  | .string quoted selected => (reads_selection selected).readsFragment (reads_quoted quoted)
  | .group opens derived closes =>
      (readsTerm_list opens (reads_fragments derived) closes).readsFragment

theorem reads_variable {tokens : List PlacedToken} {bare : VariableSymbol} :
    Variable tokens bare → ReadsTerm tokens (.variableTerm bare)
  | @Variable.basic placed name token => by
      apply readsTerm_token (by simp [Token.IsPlain, token])
      intro run
      rw [readRun.eq_def]
      simp [token, flush, basicVariable, PlacedToken.range]
  | .created opens pieces closes => readsTerm_created opens (reads_pieces pieces) closes

theorem reads_subscript {bare reference : VariableSymbol} {tokens : List PlacedToken}
    {tail : Tail} :
    Subscripted bare tokens reference tail → ReadsSubscript bare tokens reference tail
  | .none => .absent
  | .empty opens adjacent closes => readsSubscript_empty opens adjacent closes
  | .some opens adjacent arguments occupied =>
      (reads_arguments arguments).readsSubscript opens adjacent occupied

theorem reads_arguments {tokens : List PlacedToken} {arguments : List Expr} {stop : Nat} :
    Arguments tokens arguments stop → ReadsArguments tokens arguments stop
  | .last derived closes => by
      obtain ⟨piece, composed, reads⟩ := reads_fragments derived
      refine ⟨_, _, composed.closed closes, ?_, rfl⟩
      rw [readArguments, reads, ← argument_eq]
      rfl
  | .comma derived divides others => by
      obtain ⟨piece, composed, reads⟩ := reads_fragments derived
      obtain ⟨contents, close, enclosed, readsOthers, stops⟩ := reads_arguments others
      refine ⟨_, _, composed.divided divides enclosed, ?_, stops⟩
      rw [readArguments, reads, readsOthers, ← argument_eq]
      rfl

theorem reads_quoted {tokens : List PlacedToken} {duplication : Option Expr} {chain : Chain}
    {start stop : Nat} :
    Quoted tokens duplication chain start stop →
      ReadsTerm tokens (.string duplication chain start stop)
  | @Quoted.once placed raw token => by
      apply readsTerm_token (by simp [Token.IsPlain, token])
      intro run
      rw [readRun.eq_def]
      simp [token, flush]
  | .repeated opens derived closes token adjacent =>
      readsTerm_repeated (readsTerm_list opens (reads_fragments derived) closes) token adjacent

theorem reads_selection {stop last : Nat} {tokens : List PlacedToken} {selection : Selection}
    {tail : Tail} :
    Selected stop tokens selection last tail → ReadsSelection stop tokens selection last tail
  | .whole => .whole
  | .toEnd opens adjacent derived divides isStar closes =>
      readsSelection_toEnd opens adjacent (reads_fragments derived) divides isStar closes
  | .counted opens adjacent derived divides more first closes =>
      readsSelection_counted opens adjacent (reads_fragments derived) divides
        (reads_fragments more) first closes

theorem reads_pieces {behind : Option Nat} {tokens : List PlacedToken} {chain : Chain} :
    Pieces behind tokens chain → ReadsPieces behind tokens chain
  | .nil => ⟨_, Contents.composes_nil, by rw [readPieces]⟩
  | .identifier token others | .integer token others | .endOfName token others => by
      apply readsPieces_token (by simp [Token.IsPlain, token]) (reads_pieces others)
      intro run reads
      rw [readPieces]
      simp only [token, reads]
      rfl
  | .period token piece others => by
      apply readsPieces_token (by simp [Token.IsPlain, token]) (reads_pieces others)
      intro run reads
      rw [readPieces]
      simp only [token, piece, reads]
      rfl
  | .variableItem token subscripted _ others =>
      (reads_subscript subscripted).readsPieces token (reads_pieces others)

end

end ConditionalAssembly.Reader

namespace ConditionalAssembly

open Grammar

/-- The token of a word that is not negative is a constant. -/
theorem Grammar.Fragment.constant {placed : PlacedToken} {word : Int32} (nonneg : 0 ≤ word.toInt)
    (token : placed.token = .integer word.toInt.toNat) :
    Fragment [placed] (.constant word placed.range none) .closed := by
  have upper := word.toInt_lt
  have bounded : word.toInt.toNat < 2147483648 := by omega
  have number : (word.toInt.toNat : Int) = word.toInt := Int.toNat_of_nonneg nonneg
  have fragment := Fragment.integer token bounded
  rwa [number, Int32.ofInt_toInt] at fragment

/-- A fragment by itself is a list. -/
theorem Grammar.Fragment.single {tokens : List PlacedToken} {fragment : Expr} {tail : Tail}
    (derived : Fragment tokens fragment tail) : Fragments tokens [fragment] := by
  have list := Fragments.cons derived (Reader.endsBefore_nil _) .nil
  rwa [List.append_nil] at list

/-- The tokens of a source that is read are derived. -/
theorem derives_read (source : String) :
    Yields (Expr.read source) fun expr =>
      ∃ tokens fragments, Token.listOf source = .ok tokens ∧ Fragments tokens fragments ∧
        expr = .unresolved fragments (.columns 0 source.utf8ByteSize) := by
  have scanned : Yields (Token.listOf source) fun tokens => Token.listOf source = .ok tokens :=
    fun _ scanned => scanned
  refine scanned.bind fun tokens scanned => ?_
  split
  next fragments read =>
    have derived := Reader.derives_readSource tokens fragments read
    exact yields_ok ⟨tokens, fragments, scanned, derived, rfl⟩
  next => exact yields_error _

/-- A source whose tokens are derived is read. -/
theorem read_of_derives {source : String} {tokens : List PlacedToken} {fragments : List Expr}
    (scanned : Token.listOf source = .ok tokens) (derived : Fragments tokens fragments) :
    Expr.read source = .ok (.unresolved fragments (.columns 0 source.utf8ByteSize)) := by
  obtain ⟨piece, composed, reads⟩ := Reader.reads_fragments derived
  have read : Reader.readSource (.ofTokens tokens) = .ok fragments := by
    rw [composed.ofTokens_eq, Reader.readSource, reads]
  unfold Expr.read
  simp only [scanned]
  change Except.bind (.ok tokens) _ = _
  simp only [Except.bind, read]
  rfl

/-- Reading succeeds exactly for the sources whose tokens are derived, with the fragments of the
derivation. -/
theorem read_iff_derives (source : String) (expr : Expr) :
    Expr.read source = .ok expr ↔
      ∃ tokens fragments, Token.listOf source = .ok tokens ∧ Fragments tokens fragments ∧
        expr = .unresolved fragments (.columns 0 source.utf8ByteSize) := by
  constructor
  · exact derives_read source expr
  · rintro ⟨tokens, fragments, scanned, derived, rfl⟩
    exact read_of_derives scanned derived

/-- The fragments of `'AB'(&X(1),2)`. -/
def elementOfText : List Expr :=
  [.string
    ⟨none, [.text "AB"],
      ⟨some (.unresolved
          [.variableTerm
            ⟨.basic "X", [.unresolved [.constant 1 (.columns 8 9) none] (.columns 8 9)],
              .columns 5 10⟩ none]
          (.columns 5 10)),
        some (.unresolved [.constant 2 (.columns 11 12) none] (.columns 11 12)), false⟩⟩
    (.columns 0 13) none]

/-- A string with two bounds, the first of them a variable with a subscript, is read as it is
derived. -/
theorem read_iff_derives_bounds :
    Expr.read "'AB'(&X(1),2)" = .ok (.unresolved elementOfText (.columns 0 13)) := by
  have one : Fragments [⟨.integer 1, 8, 9⟩] [.constant 1 (.columns 8 9) none] :=
    (Fragment.integer rfl (by decide)).single
  have two : Fragments [⟨.integer 2, 11, 12⟩] [.constant 2 (.columns 11 12) none] :=
    (Fragment.integer rfl (by decide)).single
  have closes : (⟨.closeParen, 9, 10⟩ : PlacedToken).token = .closeParen := rfl
  have subscript : Subscripted ⟨.basic "X", [], .columns 5 7⟩ _ _ .closed :=
    @Subscripted.some _ ⟨.openParen, 7, 8⟩ _ _ _ rfl rfl (.last one closes) (by decide)
  have named : Variable [⟨.variableName "X", 5, 7⟩] ⟨.basic "X", [], .columns 5 7⟩ := .basic rfl
  have element := (Fragment.variableTerm named subscript).single
  have bounds : Selected 4 _ _ 13 .closed :=
    @Selected.counted _ ⟨.openParen, 4, 5⟩ ⟨.comma, 10, 11⟩ ⟨.closeParen, 12, 13⟩ _ _ _ _
      rfl rfl element rfl two (by simp) rfl
  have text : Quoted [⟨.string "AB", 0, 4⟩] none _ 0 4 := .once rfl
  have derived := (Fragment.string text bounds).single
  refine (read_iff_derives _ _).mpr ⟨_, _, ?_, derived, ?_⟩
  · cbv
  · cbv

end ConditionalAssembly
