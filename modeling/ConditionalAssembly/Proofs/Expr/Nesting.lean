import ConditionalAssembly.Proofs.Expr.Parsing
import ConditionalAssembly.Proofs.Expr.Parts
import ConditionalAssembly.Proofs.Token.Partition

/-!
# Ranges nest

What an expression is made up of is derived from tokens that stand one behind
the other, so the ranges of its parts do so too, and each part covers what it
is made up of.
-/

namespace ConditionalAssembly

open Text Reader

/-! ## Tokens -/

namespace PlacedToken

/-- A string is as long as its text and two quotes, and the attribute of a variable is longer than
what stands in front of the variable. -/
structure Spacious (placed : PlacedToken) : Prop where
  string : ∀ raw, placed.token = .string raw →
    placed.stop = placed.start + 1 + byteCount raw.toList + 1
  variableAttribute : ∀ kind name, placed.token = .attributeOf kind true name →
    placed.start + 2 < placed.stop

end PlacedToken

/-- A text spelled by a kind of token is as long as the token needs. -/
theorem Token.Pattern.spacious {pattern : Pattern} {spelling : List Char} {found : Token}
    (spelled : spelling ∈ pattern.language) (held : pattern.token? spelling = some found)
    (start : Nat) : PlacedToken.Spacious ⟨found, start, start + byteCount spelling⟩ := by
  cases pattern with
  | integer =>
      rw [token?] at held
      split at held <;> cases held
      constructor <;> simp
  | string =>
      obtain ⟨raw, _, rfl⟩ := mem_string.mp spelled
      cases held
      refine ⟨?_, by simp⟩
      rintro _ ⟨⟩
      have size : byteCount ('\'' :: (raw ++ ['\''])) = 1 + (byteCount raw + 1) := by
        rw [byteCount, byteCount_append]
        rfl
      simp [size]
      omega
  | variableName | createdName | identifier =>
      cases held
      constructor <;> simp
  | attributeOf =>
      obtain ⟨c, name, _, valid, rfl | rfl⟩ := mem_attributeOf.mp spelled
      · obtain ⟨kind, _, same⟩ := Option.map_eq_some_iff.mp held
        have start := not_mem_of_all (all_of_isName valid) (c := '&') (by decide)
        split at same
        next ampersand =>
          change name = _ at ampersand
          simp [ampersand] at start
        next =>
          cases same
          constructor <;> simp
      · obtain ⟨kind, _, same⟩ := Option.map_eq_some_iff.mp held
        cases same
        refine ⟨by simp, fun _ _ _ => ?_⟩
        have size : byteCount (c :: '\'' :: '&' :: name) = c.utf8Size + (1 + (1 + byteCount name)) :=
          rfl
        have letter := c.utf8Size_pos
        change start + 2 < start + byteCount (c :: '\'' :: '&' :: name)
        omega
  | mark =>
      obtain ⟨c, _, rfl⟩ := mem_mark.mp spelled
      have single : ofChar? c = some found := held
      unfold ofChar? at single
      split at single <;> cases single <;> constructor <;> simp

namespace PlacedToken

/-- Tokens stand one behind the other between two columns. -/
structure Occupy (first last : Nat) (tokens : List PlacedToken) : Prop where
  inSequence : Range.InSequence first last (tokens.map PlacedToken.range)
  spacious : ∀ placed ∈ tokens, placed.Spacious

namespace Occupy

variable {first last : Nat} {placed : PlacedToken} {tokens rest : List PlacedToken}

theorem mono {least greatest : Nat} (occupy : Occupy first last tokens) (before : least ≤ first)
    (behind : last ≤ greatest) : Occupy least greatest tokens :=
  ⟨occupy.inSequence.mono before behind, occupy.spacious⟩

/-- Tokens in two parts have a column between them. -/
theorem split (occupy : Occupy first last (tokens ++ rest)) :
    ∃ middle, Occupy first middle tokens ∧ Occupy middle last rest := by
  obtain ⟨inSequence, spacious⟩ := occupy
  rw [List.map_append] at inSequence
  obtain ⟨middle, front, behind⟩ := Range.inSequence_append.mp inSequence
  obtain ⟨spaciousFront, spaciousBehind⟩ := List.forall_mem_append.mp spacious
  exact ⟨middle, ⟨front, spaciousFront⟩, ⟨behind, spaciousBehind⟩⟩

/-- Behind the first token stand the others. -/
theorem tail (occupy : Occupy first last (placed :: rest)) :
    first ≤ placed.start ∧ placed.start < placed.stop ∧ Occupy placed.stop last rest := by
  obtain ⟨inSequence, spacious⟩ := occupy
  cases inSequence with
  | cons before nonempty behind =>
      exact ⟨before, nonempty, behind, (List.forall_mem_cons.mp spacious).2⟩

/-- The last token stands behind the others. -/
theorem snoc (occupy : Occupy first last (tokens ++ [placed])) :
    Occupy first placed.start tokens ∧ placed.start < placed.stop ∧ placed.stop ≤ last := by
  obtain ⟨middle, front, behind⟩ := occupy.split
  obtain ⟨before, nonempty, rest⟩ := behind.tail
  exact ⟨front.mono (Nat.le_refl _) before, nonempty, rest.inSequence.le⟩

end Occupy

end PlacedToken

theorem Token.occupy_of_listOf {source : String} {tokens : List PlacedToken}
    (listed : listOf source = .ok tokens) : PlacedToken.Occupy 0 source.utf8ByteSize tokens where
  inSequence := (listOf_eq_ok_iff.mp listed).inSequence
  spacious placed isToken := by
    obtain ⟨before, spelling, behind, pattern, _, _, stop, longest, held⟩ :=
      (listOf_eq_ok_iff.mp listed).spelled isToken
    have spacious := Pattern.spacious longest.spelled held placed.start
    rwa [← stop] at spacious

/-! ## Parts -/

namespace Part

/-- What a part is directly made up of stands one behind the other in it. -/
def Fits (part : Part) : Prop :=
  ∃ start stop, part.range = .columns start stop ∧
    Range.InSequence start stop (part.children.map range)

/-- Parts in which everything fits stand one behind the other between two columns. -/
structure Nest (first last : Nat) (parts : List Part) : Prop where
  inSequence : Range.InSequence first last (parts.map range)
  fits : ∀ part ∈ parts, part.Throughout Fits

namespace Nest

variable {first last : Nat} {parts others : List Part}

theorem nil (le : first ≤ last) : Nest first last [] :=
  ⟨.nil le, nofun⟩

theorem le (nest : Nest first last parts) : first ≤ last :=
  nest.inSequence.le

theorem mono {least greatest : Nat} (nest : Nest first last parts) (before : least ≤ first)
    (behind : last ≤ greatest) : Nest least greatest parts :=
  ⟨nest.inSequence.mono before behind, nest.fits⟩

theorem append {middle : Nat} (front : Nest first middle parts) (rest : Nest middle last others) :
    Nest first last (parts ++ others) where
  inSequence := by
    rw [List.map_append]
    exact front.inSequence.append rest.inSequence
  fits := List.forall_mem_append.mpr ⟨front.fits, rest.fits⟩

/-- Everything fits in a part that covers what it is made up of. -/
theorem throughout {start stop : Nat} {part : Part} (range : part.range = .columns start stop)
    (nest : Nest start stop part.children) : part.Throughout Fits :=
  throughout_iff.mpr ⟨⟨start, stop, range, nest.inSequence⟩, nest.fits⟩

/-- A part that is not empty and covers what it is made up of. -/
theorem single {start stop : Nat} {part : Part} (range : part.range = .columns start stop)
    (nest : Nest start stop part.children) (before : first ≤ start) (nonempty : start < stop)
    (behind : stop ≤ last) : Nest first last [part] where
  inSequence := Range.Between.inSequence ⟨start, stop, range, before, nonempty, behind⟩
  fits := List.forall_mem_singleton.mpr (throughout range nest)

end Nest

/-- An argument covers its fragments, and an empty one the token that ends it. -/
theorem nest_argument {first : Nat} {fragments : List Expr} {ending : PlacedToken}
    (nest : Nest first ending.start (fragments.map .term)) (nonempty : ending.start < ending.stop) :
    Nest first ending.stop [.term (.unresolved fragments (Grammar.argumentRange fragments ending))] := by
  cases fragments with
  | nil =>
      have le := nest.le
      exact .single rfl (.nil (Nat.le_succ _)) le (Nat.lt_succ_self _) nonempty
  | cons fragment rest =>
      obtain ⟨start, stop, whole, before, occupied, behind, covered⟩ :=
        nest.inSequence.exists_union
      have covers : Grammar.argumentRange (fragment :: rest) ending = .columns start stop := by
        have isLast : (((fragment :: rest).map term).map range).getLast (by simp) =
            ((fragment :: rest).getLast (List.cons_ne_nil _ _)).range := by
          rw [List.getLast_map, List.getLast_map]
          rfl
        rw [← whole]
        exact congrArg fragment.range.union isLast.symm
      refine .single covers ?_ before occupied (by omega)
      exact ⟨covered, nest.fits⟩

end Part

/-! ## Variables in strings -/

namespace Chain

theorem referencesOfChain_prependText (text : String) (chain : Chain) :
    referencesOfChain (prependText text chain) = referencesOfChain chain := by
  cases chain with
  | nil => rfl
  | cons item rest => cases item <;> rfl

/-- What stands behind some characters stands in the text that they begin. -/
theorem nest_behind {column : Nat} (front : List Char) {cs : List Char} {parts : List Part}
    (further : Part.Nest (column + byteCount front) (column + byteCount front + byteCount cs) parts) :
    Part.Nest column (column + byteCount (front ++ cs)) parts := by
  rw [byteCount_append, ← Nat.add_assoc]
  exact further.mono (Nat.le_add_right _ _) (Nat.le_refl _)

theorem byteCount_dropPeriod (cs : List Char) :
    cs.length - (dropPeriod cs).length + byteCount (dropPeriod cs) = byteCount cs := by
  unfold dropPeriod
  split
  next rest =>
    rw [List.length_cons, Nat.add_sub_cancel_left]
    rfl
  next => rw [Nat.sub_self, Nat.zero_add]

/-- The variables in a quoted text stand one behind the other in it. -/
theorem nest_ofQuoted (column : Nat) (cs : List Char) :
    Part.Nest column (column + byteCount cs)
      ((referencesOfChain (ofQuoted column cs)).map .reference) := by
  fun_induction ofQuoted column cs with
  | case1 => exact .nil (Nat.le_add_right _ _)
  | case2 column cs ih =>
      rw [referencesOfChain_prependText]
      exact nest_behind ['\'', '\''] ih
  | case3 column cs _ ih =>
      rw [referencesOfChain_prependText]
      exact nest_behind ['\''] ih
  | case4 column cs ih =>
      rw [referencesOfChain_prependText]
      exact nest_behind ['&', '&'] ih
  | case5 column c cs _ start name behind stop period _ ih =>
      have all : name.all isNameChar := by
        simp [name, Token.isNameChar_of_isNameStart start]
      have whole : c :: cs = name ++ behind :=
        congrArg (c :: ·) List.takeWhile_append_dropWhile.symm
      have size : column + byteCount ('&' :: c :: cs) = stop + byteCount behind := by
        rw [whole, ← List.cons_append, byteCount_append, byteCount, byteCount_of_all all,
          ← Nat.add_assoc, ← Nat.add_assoc]
        rfl
      have period_add : stop + period + byteCount (dropPeriod behind) = stop + byteCount behind := by
        rw [Nat.add_assoc, byteCount_dropPeriod]
      rw [period_add, ← size] at ih
      have single : Part.Nest column stop
          [.reference ⟨.basic (nameOf name), [], .columns column stop⟩] :=
        .single rfl (.nil (by omega)) (Nat.le_refl _) (by omega) (Nat.le_refl _)
      exact single.append (ih.mono (Nat.le_add_right _ _) (Nat.le_refl _))
  | case6 column c cs _ _ ih =>
      rw [referencesOfChain_prependText]
      exact nest_behind ['&'] ih
  | case7 column cs ih => exact nest_behind ['.'] ih
  | case8 column cs ih => exact nest_behind ['='] ih
  | case9 column c cs =>
      rename_i ih
      rw [referencesOfChain_prependText]
      exact nest_behind [c] ih

end Chain

/-! ## Derivations -/

namespace Grammar

open PlacedToken

/-- A reference covers what it is made up of, from one column to another. -/
structure Spans (start stop : Nat) (reference : VariableSymbol) : Prop where
  range : reference.range = .columns start stop
  nest : Part.Nest start stop (Part.reference reference).children

variable {first last : Nat}

theorem nest_token {placed : PlacedToken} {fragment : Expr} (occupy : Occupy first last [placed])
    (range : fragment.range = placed.range) (children : (Part.term fragment).children = []) :
    Part.Nest first last [.term fragment] := by
  obtain ⟨before, nonempty, behind⟩ := occupy.tail
  refine .single range ?_ before nonempty behind.inSequence.le
  rw [children]
  exact .nil (Nat.le_of_lt nonempty)

/-- A reference that is not empty stands where it spans. -/
theorem Spans.single {start stop : Nat} {reference : VariableSymbol}
    (spans : Spans start stop reference) (before : first ≤ start) (nonempty : start < stop)
    (behind : stop ≤ last) : Part.Nest first last [.reference reference] :=
  .single spans.range spans.nest before nonempty behind

theorem spans_basic {name : String} {start stop : Nat} (nonempty : start < stop) :
    Spans start stop ⟨.basic name, [], .columns start stop⟩ :=
  ⟨rfl, .nil (Nat.le_of_lt nonempty)⟩

/-- A reference spans its subscript, too. -/
theorem Spans.subscripted {start stop ending : Nat} {bare : VariableSymbol} {arguments : List Expr}
    (spans : Spans start stop bare) (noSubscript : bare.subscript = [])
    (nest : Part.Nest stop ending (arguments.map .term)) :
    Spans start ending ⟨bare.name, arguments, .columns bare.range.start.column ending⟩ where
  range := by
    rw [spans.range]
    rfl
  nest := by
    have name := spans.nest
    rw [Part.children, noSubscript, List.map_nil, List.append_nil] at name
    exact name.append nest

mutual

theorem nest_fragments {first last : Nat} {tokens : List PlacedToken} {fragments : List Expr} :
    Fragments tokens fragments → Occupy first last tokens →
      Part.Nest first last (fragments.map .term)
  | .nil, occupy => .nil occupy.inSequence.le
  | .cons fragment _ rest, occupy => by
      obtain ⟨middle, front, behind⟩ := occupy.split
      exact (nest_fragment fragment front).append (nest_fragments rest behind)

theorem nest_fragment {first last : Nat} {tokens : List PlacedToken} {fragment : Expr}
    {tail : Tail} :
    Fragment tokens fragment tail → Occupy first last tokens → Part.Nest first last [.term fragment]
  | .integer _ _, occupy | .word _, occupy | .symbolAttribute _, occupy =>
      nest_token occupy rfl rfl
  | @Fragment.variableAttribute placed kind name _ reference _ token subscripted, occupy => by
      obtain ⟨before, nonempty, behind⟩ := occupy.tail
      have ahead := (occupy.spacious placed (List.mem_cons_self ..)).variableAttribute kind name token
      obtain ⟨stop, le, inside, spans⟩ :=
        nest_subscript subscripted rfl (spans_basic ahead) behind
      have range : placed.range.union reference.range = .columns placed.start stop := by
        rw [PlacedToken.range, spans.range, Range.union_columns, Nat.min_eq_left (Nat.le_add_right _ _),
          Nat.max_eq_right le]
      have subject : Part.Nest placed.start stop [.reference reference] :=
        spans.single (Nat.le_add_right _ _) (by omega) (Nat.le_refl _)
      exact .single range subject before (by omega) inside
  | .variableTerm named subscripted, occupy => by
      obtain ⟨middle, front, behind⟩ := occupy.split
      obtain ⟨start, stop, before, nonempty, reaches, bare, spans⟩ := nest_variable named front
      obtain ⟨ending, le, inside, spansWhole⟩ :=
        nest_subscript subscripted bare spans (behind.mono reaches (Nat.le_refl _))
      have subject := spansWhole.single (Nat.le_refl _) (by omega) (Nat.le_refl _)
      exact .single spansWhole.range subject before (by omega) inside
  | .string quoted selected, occupy => by
      obtain ⟨middle, front, behind⟩ := occupy.split
      obtain ⟨before, nonempty, reaches, text⟩ := nest_quoted quoted front
      obtain ⟨le, inside, bounds⟩ :=
        nest_selection selected (behind.mono reaches (Nat.le_refl _))
      exact .single rfl (text.append bounds) before (by omega) inside
  | .group _ derived _, occupy => by
      obtain ⟨before, nonempty, behind⟩ := occupy.tail
      obtain ⟨contents, occupied, inside⟩ := behind.snoc
      have fragments := nest_fragments derived contents
      have le := fragments.le
      exact .single rfl (fragments.mono (by omega) (by omega)) before (by omega) inside

theorem nest_variable {first last : Nat} {tokens : List PlacedToken} {bare : VariableSymbol} :
    Variable tokens bare → Occupy first last tokens →
      ∃ start stop, first ≤ start ∧ start < stop ∧ stop ≤ last ∧ bare.subscript = [] ∧
        Spans start stop bare
  | @Variable.basic placed _ _, occupy => by
      obtain ⟨before, nonempty, behind⟩ := occupy.tail
      exact ⟨placed.start, placed.stop, before, nonempty, behind.inSequence.le, rfl,
        spans_basic nonempty⟩
  | @Variable.created opener close _ _ _ pieces _, occupy => by
      obtain ⟨before, nonempty, behind⟩ := occupy.tail
      obtain ⟨contents, occupied, inside⟩ := behind.snoc
      have references := nest_pieces pieces contents
      have le := references.le
      refine ⟨opener.start, close.stop, before, by omega, inside, rfl, rfl, ?_⟩
      exact (references.mono (by omega) (by omega)).append (.nil (Nat.le_refl _))

theorem nest_subscript {start stop last : Nat} {tokens : List PlacedToken}
    {bare reference : VariableSymbol} {tail : Tail} :
    Subscripted bare tokens reference tail → bare.subscript = [] → Spans start stop bare →
      Occupy stop last tokens →
      ∃ ending, stop ≤ ending ∧ ending ≤ last ∧ Spans start ending reference
  | .none, _, spans, occupy => ⟨stop, Nat.le_refl _, occupy.inSequence.le, spans⟩
  | @Subscripted.empty _ _ close _ _ _, noSubscript, spans, occupy => by
      obtain ⟨before, nonempty, behind⟩ := occupy.tail
      obtain ⟨beforeClose, nonemptyClose, rest⟩ := behind.tail
      exact ⟨close.stop, by omega, rest.inSequence.le,
        spans.subscripted noSubscript (.nil (by omega))⟩
  | .some _ _ arguments _, noSubscript, spans, occupy => by
      obtain ⟨before, nonempty, behind⟩ := occupy.tail
      obtain ⟨inside, nest⟩ := nest_arguments arguments behind
      have le := nest.le
      exact ⟨_, by omega, inside, spans.subscripted noSubscript (nest.mono (by omega) (Nat.le_refl _))⟩

theorem nest_arguments {first last : Nat} {tokens : List PlacedToken} {arguments : List Expr}
    {stop : Nat} :
    Arguments tokens arguments stop → Occupy first last tokens →
      stop ≤ last ∧ Part.Nest first stop (arguments.map .term)
  | .last derived _, occupy => by
      obtain ⟨contents, nonempty, inside⟩ := occupy.snoc
      exact ⟨inside, Part.nest_argument (nest_fragments derived contents) nonempty⟩
  | .comma derived _ others, occupy => by
      obtain ⟨middle, front, behind⟩ := occupy.split
      obtain ⟨before, nonempty, rest⟩ := behind.tail
      obtain ⟨inside, nest⟩ := nest_arguments others rest
      have fragments := (nest_fragments derived front).mono (Nat.le_refl _) before
      exact ⟨inside, (Part.nest_argument fragments nonempty).append nest⟩

theorem nest_quoted {first last : Nat} {tokens : List PlacedToken} {duplication : Option Expr}
    {chain : Chain} {start stop : Nat} :
    Quoted tokens duplication chain start stop → Occupy first last tokens →
      first ≤ start ∧ start < stop ∧ stop ≤ last ∧ Part.Nest start stop (Part.ofText duplication chain)
  | @Quoted.once placed raw token, occupy => by
      have ends := (occupy.spacious placed (List.mem_singleton_self _)).string raw token
      obtain ⟨before, nonempty, rest⟩ := occupy.tail
      have text := Chain.nest_ofQuoted (placed.start + 1) raw.toList
      exact ⟨before, nonempty, rest.inSequence.le, text.mono (by omega) (by omega)⟩
  | @Quoted.repeated opener close placed _ _ raw _ derived _ token adjacent, occupy => by
      have ends := (occupy.spacious placed (by simp)).string raw token
      obtain ⟨front, nonempty, inside⟩ := occupy.snoc
      obtain ⟨before, nonemptyOpener, behind⟩ := front.tail
      obtain ⟨contents, nonemptyClose, beforeString⟩ := behind.snoc
      have fragments := nest_fragments derived contents
      have le := fragments.le
      have text := Chain.nest_ofQuoted (placed.start + 1) raw.toList
      have factor : Part.Nest opener.start placed.start [.term (.unresolved _ _)] :=
        .single rfl (fragments.mono (by omega) (by omega)) (Nat.le_refl _) (by omega) beforeString
      exact ⟨before, by omega, inside, factor.append (text.mono (by omega) (by omega))⟩

theorem nest_selection {stop last : Nat} {tokens : List PlacedToken} {selection : Selection}
    {ending : Nat} {tail : Tail} :
    Selected stop tokens selection ending tail → Occupy stop last tokens →
      stop ≤ ending ∧ ending ≤ last ∧ Part.Nest stop ending (Part.ofSelection selection)
  | .whole, occupy => ⟨Nat.le_refl _, occupy.inSequence.le, .nil (Nat.le_refl _)⟩
  | .toEnd _ _ derived _ _ _, occupy => by
      obtain ⟨before, nonempty, behind⟩ := occupy.tail
      obtain ⟨middle, contents, rest⟩ := behind.split
      obtain ⟨beforeComma, nonemptyComma, star⟩ := rest.tail
      obtain ⟨beforeStar, nonemptyStar, close⟩ := star.tail
      obtain ⟨beforeClose, nonemptyClose, rest⟩ := close.tail
      have fragments := (nest_fragments derived contents).mono (Nat.le_refl _) beforeComma
      have start := Part.nest_argument fragments nonemptyComma
      have le := start.le
      exact ⟨by omega, rest.inSequence.le, start.mono (by omega) (by omega)⟩
  | .counted _ _ derived _ more _ _, occupy => by
      obtain ⟨before, nonempty, behind⟩ := occupy.tail
      obtain ⟨middle, contents, rest⟩ := behind.split
      obtain ⟨beforeComma, nonemptyComma, further⟩ := rest.tail
      obtain ⟨others, nonemptyClose, inside⟩ := further.snoc
      have fragments := (nest_fragments derived contents).mono (Nat.le_refl _) beforeComma
      have start := Part.nest_argument fragments nonemptyComma
      have count := Part.nest_argument (nest_fragments more others) nonemptyClose
      have le := start.le
      have leToo := count.le
      exact ⟨by omega, inside, (start.mono (by omega) (Nat.le_refl _)).append count⟩

theorem nest_pieces {first last : Nat} {behind : Option Nat} {tokens : List PlacedToken}
    {chain : Chain} :
    Pieces behind tokens chain → Occupy first last tokens →
      Part.Nest first last ((referencesOfChain chain).map .reference)
  | .nil, occupy => .nil occupy.inSequence.le
  | .identifier _ others, occupy | .integer _ others, occupy | .period _ _ others, occupy
  | .endOfName _ others, occupy => by
      obtain ⟨before, nonempty, rest⟩ := occupy.tail
      exact (nest_pieces others rest).mono (by omega) (Nat.le_refl _)
  | .variableItem _ subscripted _ others, occupy => by
      obtain ⟨before, nonempty, rest⟩ := occupy.tail
      obtain ⟨middle, front, behind⟩ := rest.split
      obtain ⟨stop, le, inside, spans⟩ :=
        nest_subscript subscripted rfl (spans_basic nonempty) front
      exact (spans.single before (by omega) inside).append (nest_pieces others behind)

end

end Grammar

/-! ## Expressions that are read -/

/-- A child stands inside the range of its part. -/
theorem Part.Fits.between {part child : Part} (fits : part.Fits) (isChild : child ∈ part.children) :
    child.range.Between part.range.start.column part.range.stop.column := by
  obtain ⟨start, stop, range, inSequence⟩ := fits
  rw [range]
  exact inSequence.between (List.mem_map_of_mem isChild)

/-- What is inside a part in which everything fits stands inside its range. -/
theorem Part.between_of_inside {whole inner : Part} (throughout : whole.Throughout Part.Fits)
    (inside : inner.Inside whole) :
    inner = whole ∨ inner.range.Between whole.range.start.column whole.range.stop.column := by
  induction inside with
  | refl => exact .inl rfl
  | @tail outer child within isChild ih =>
      have between := (throughout outer within).between isChild
      rcases ih with rfl | ⟨start, stop, range, before, _, behind⟩
      · exact .inr between
      · rw [range] at between
        obtain ⟨begins, ends, rangeChild, beforeChild, nonempty, behindChild⟩ := between
        exact .inr ⟨begins, ends, rangeChild, before.trans beforeChild, nonempty,
          behindChild.trans behind⟩

/-- What is read stands on the whole source, and everything in it fits. -/
theorem Expr.fits_read {source : String} {expr : Expr} (read : Expr.read source = .ok expr) :
    expr.range = .columns 0 source.utf8ByteSize ∧ (Part.term expr).Throughout Part.Fits := by
  obtain ⟨tokens, fragments, listed, derived, rfl⟩ := derives_read source expr read
  have nest := Grammar.nest_fragments derived (Token.occupy_of_listOf listed)
  exact ⟨rfl, Part.Nest.throughout rfl nest⟩

/-- The ranges of an expression that is read nest: the whole stands on the whole source, every
other part is not empty, and what a part is made up of stands inside it, each child behind the one
before it. -/
theorem Expr.nests_read {source : String} {expr : Expr} (read : Expr.read source = .ok expr) :
    expr.range = .columns 0 source.utf8ByteSize ∧
      ∀ part : Part, part.Inside (.term expr) →
        (part = .term expr ∨ part.range.Between 0 source.utf8ByteSize) ∧
        (∀ child ∈ part.children,
          child.range.Between part.range.start.column part.range.stop.column) ∧
        part.children.Pairwise fun earlier later =>
          earlier.range.stop.column ≤ later.range.start.column := by
  obtain ⟨range, throughout⟩ := Expr.fits_read read
  refine ⟨range, fun part inside => ?_⟩
  have fits := throughout part inside
  have between := Part.between_of_inside throughout inside
  rw [Part.range, range] at between
  refine ⟨between, fun _ isChild => fits.between isChild, ?_⟩
  obtain ⟨_, _, _, inSequence⟩ := fits
  exact List.pairwise_map.mp inSequence.pairwise

/-- A string that is repeated, with a variable in its text and bounds of which the first is
empty. -/
def repeatedString : Expr :=
  .string
    ⟨some (.unresolved [.constant 2 (.columns 1 2) none] (.columns 0 3)),
      [.variableItem ⟨.basic "A", [], .columns 4 6⟩],
      ⟨some (.unresolved [] (.columns 8 9)),
        some (.unresolved [.constant 2 (.columns 9 10) none] (.columns 9 10)), false⟩⟩
    (.columns 0 11) none

/-- The parts of a repeated string nest. -/
theorem Expr.nests_read_repeatedString :
    Expr.read "(2)'&A'(,2)" = .ok (.unresolved [repeatedString] (.columns 0 11)) ∧
      (Part.term repeatedString).children.map Part.range =
        [.columns 0 3, .columns 4 6, .columns 8 9, .columns 9 10] ∧
      ∀ child ∈ (Part.term repeatedString).children, child.range.Between 0 11 := by
  have read : Expr.read "(2)'&A'(,2)" = .ok (.unresolved [repeatedString] (.columns 0 11)) := by cbv
  have inside : (Part.term repeatedString).Inside
      (.term (.unresolved [repeatedString] (.columns 0 11))) :=
    .single (List.mem_singleton_self _)
  exact ⟨read, rfl, ((Expr.nests_read read).2 _ inside).2.1⟩

end ConditionalAssembly
