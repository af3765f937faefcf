import ConditionalAssembly.Proofs.Expr.Erasure
import ConditionalAssembly.Proofs.Expr.Parsing
import ConditionalAssembly.Proofs.Token.Enclosing

/-!
# The same tokens further on

The rules of the grammar compare the places of tokens, but only to tell whether
one stands directly behind another.  Tokens that all stand the same distance
further on are therefore read in the same way, and what is read differs in its
places only.
-/

namespace ConditionalAssembly

/-! ## Erased parts -/

namespace Chain

theorem erase_prependText (text : String) (chain : Chain) :
    eraseChain (prependText text chain) = prependText text (eraseChain chain) := by
  cases chain with
  | nil => rfl
  | cons item rest => cases item <;> rfl

/-- The text between quotes denotes the same pieces wherever it stands. -/
theorem erase_ofQuoted (column other : Nat) (cs : List Char) :
    eraseChain (ofQuoted column cs) = eraseChain (ofQuoted other cs) := by
  fun_induction ofQuoted column cs generalizing other with
  | case1 => rw [ofQuoted]
  | case2 | case4 =>
      rename_i ih
      rw [ofQuoted, erase_prependText, erase_prependText, ih]
  | case3 column cs single ih =>
      rw [ofQuoted, erase_prependText, erase_prependText, ih]
      exact single
  | case5 column c cs single start name behind stop period _ ih =>
      rw [ofQuoted, if_pos start]
      · simp only [eraseChain]
        rw [ih (other + 1 + name.length + period)]
        rfl
      · exact single
  | case6 column c cs single start ih =>
      rw [ofQuoted, if_neg start, erase_prependText, erase_prependText, ih]
      exact single
  | case7 | case8 =>
      rename_i ih
      rw [ofQuoted, eraseChain, eraseChain, ih]
  | case9 column c cs =>
      rename_i ih
      rw [ofQuoted, erase_prependText, erase_prependText, ih]
      all_goals assumption

end Chain

namespace Grammar

/-- What a term goes on with, further on. -/
def Tail.moved (distance : Nat) : Tail → Tail
  | .closed => .closed
  | .parenthesis stop => .parenthesis (stop + distance)
  | .string stop => .string (stop + distance)

/-- A term that does not go on does not do so further on. -/
theorem Tail.EndsBefore.moved {tail : Tail} {rest : List PlacedToken}
    (ends : tail.EndsBefore rest) (distance : Nat) :
    (tail.moved distance).EndsBefore (rest.map (PlacedToken.moved distance)) := by
  intro next isNext takes
  cases rest with
  | nil => cases isNext
  | cons first others =>
      cases isNext
      apply ends first rfl
      cases tail with
      | closed => exact takes
      | parenthesis stop => exact ⟨takes.1, Nat.add_right_cancel takes.2⟩
      | string stop => exact ⟨takes.1, Nat.add_right_cancel takes.2⟩

/-- A reference that differs from another in its places only and ends further on. -/
structure Moves (distance : Nat) (reference other : VariableSymbol) : Prop where
  erase : other.erase = reference.erase
  stop : other.range.stop.column = reference.range.stop.column + distance

/-- References with the same subscript but for places, the second further on. -/
theorem Moves.withSubscript {distance stop : Nat} {bare other : VariableSymbol}
    {arguments others : List Expr} (moves : Moves distance bare other)
    (same : eraseEach others = eraseEach arguments) :
    Moves distance ⟨bare.name, arguments, .columns bare.range.start.column stop⟩
      ⟨other.name, others, .columns other.range.start.column (stop + distance)⟩ := by
  have sameName : other.name.erase = bare.name.erase := by
    have erased := moves.erase
    rcases bare with ⟨name, subscript, range⟩
    rcases other with ⟨otherName, otherSubscript, otherRange⟩
    rw [VariableSymbol.erase, VariableSymbol.erase] at erased
    injection erased
  exact ⟨by rw [VariableSymbol.erase, VariableSymbol.erase, same, sameName], rfl⟩

/-! ## Derivations -/

variable (distance : Nat)

mutual

/-- Tokens further on make up a list that differs from the list of the tokens in its places only. -/
theorem moved_fragments {tokens : List PlacedToken} {fragments : List Expr} :
    Fragments tokens fragments →
      ∃ others, Fragments (tokens.map (PlacedToken.moved distance)) others ∧
        eraseEach others = eraseEach fragments
  | .nil => ⟨[], .nil, rfl⟩
  | .cons first ends rest => by
      obtain ⟨fragment, moved, same⟩ := moved_fragment first
      obtain ⟨others, movedRest, sameRest⟩ := moved_fragments rest
      refine ⟨fragment :: others, ?_, by rw [eraseEach, eraseEach, same, sameRest]⟩
      rw [List.map_append]
      exact .cons moved (ends.moved distance) movedRest

theorem moved_fragment {tokens : List PlacedToken} {fragment : Expr} {tail : Tail} :
    Fragment tokens fragment tail →
      ∃ other, Fragment (tokens.map (PlacedToken.moved distance)) other (tail.moved distance) ∧
        other.erase = fragment.erase
  | .integer token bounded => ⟨_, .integer token bounded, rfl⟩
  | .word isWord => ⟨_, .word isWord, rfl⟩
  | .symbolAttribute token => ⟨_, .symbolAttribute token, rfl⟩
  | @Fragment.variableAttribute placed kind name _ reference _ token subscripted => by
      have bare : Moves distance ⟨.basic name, [], .columns (placed.start + 2) placed.stop⟩
          ⟨.basic name, [],
            .columns ((placed.moved distance).start + 2) (placed.moved distance).stop⟩ :=
        ⟨rfl, rfl⟩
      obtain ⟨other, moved, moves⟩ := moved_subscript subscripted bare
      refine ⟨_, .variableAttribute token moved, ?_⟩
      rw [Expr.erase, Expr.erase, moves.erase]
  | .variableTerm named subscripted => by
      obtain ⟨bare, movedName, moves⟩ := moved_variable named
      obtain ⟨other, moved, whole⟩ := moved_subscript subscripted moves
      refine ⟨.variableTerm other none, ?_, by rw [Expr.erase, Expr.erase, whole.erase]⟩
      rw [List.map_append]
      exact .variableTerm movedName moved
  | @Fragment.string _ _ _ _ start _ last _ _ quoted selected => by
      obtain ⟨duplication, chain, movedText, sameFactor, sameChain⟩ := moved_quoted quoted
      obtain ⟨selection, moved, same⟩ := moved_selection selected
      refine ⟨.string ⟨duplication, chain, selection⟩
        (.columns (start + distance) (last + distance)) none, ?_, ?_⟩
      · rw [List.map_append]
        exact .string movedText moved
      · simp only [Expr.erase, StringTerm.erase, sameFactor, sameChain, same]
  | @Fragment.group opener close _ _ opens derived closes => by
      obtain ⟨others, moved, same⟩ := moved_fragments derived
      refine ⟨.unresolved others (.columns (opener.start + distance) (close.stop + distance)), ?_,
        by rw [Expr.erase, Expr.erase, same]⟩
      rw [List.map_cons, List.map_append]
      exact .group opens moved closes

theorem moved_variable {tokens : List PlacedToken} {bare : VariableSymbol} :
    Variable tokens bare →
      ∃ other, Variable (tokens.map (PlacedToken.moved distance)) other ∧ Moves distance bare other
  | .basic token => ⟨_, .basic token, rfl, rfl⟩
  | @Variable.created opener close _ _ opens pieces closes => by
      obtain ⟨chain, moved, same⟩ := moved_pieces pieces
      refine ⟨⟨.created chain, [], .columns (opener.start + distance) (close.stop + distance)⟩,
        ?_, ⟨by simp only [VariableSymbol.erase, VariableName.erase, same], rfl⟩⟩
      rw [List.map_cons, List.map_append]
      exact .created opens moved closes

theorem moved_subscript {bare reference : VariableSymbol} {tokens : List PlacedToken}
    {tail : Tail} :
    Subscripted bare tokens reference tail → ∀ {bareOther : VariableSymbol},
      Moves distance bare bareOther →
      ∃ other, Subscripted bareOther (tokens.map (PlacedToken.moved distance)) other
        (tail.moved distance) ∧ Moves distance reference other
  | .none, bareOther, moves => by
      refine ⟨bareOther, ?_, moves⟩
      rw [List.map_nil, Tail.moved, ← moves.stop]
      exact .none
  | .empty opens adjacent closes, bareOther, moves =>
      ⟨_, .empty opens ((congrArg (· + distance) adjacent).trans moves.stop.symm) closes,
        moves.withSubscript rfl⟩
  | .some opens adjacent arguments occupied, bareOther, moves => by
      obtain ⟨others, moved, same⟩ := moved_arguments arguments
      exact ⟨_, .some opens ((congrArg (· + distance) adjacent).trans moves.stop.symm) moved
        (by rwa [List.length_map]), moves.withSubscript same⟩

theorem moved_arguments {tokens : List PlacedToken} {arguments : List Expr} {stop : Nat} :
    Arguments tokens arguments stop →
      ∃ others, Arguments (tokens.map (PlacedToken.moved distance)) others (stop + distance) ∧
        eraseEach others = eraseEach arguments
  | @Arguments.last _ _ close derived closes => by
      obtain ⟨others, moved, same⟩ := moved_fragments derived
      refine ⟨[.unresolved others (argumentRange others (close.moved distance))], ?_,
        by simp only [eraseEach, Expr.erase, same]⟩
      rw [List.map_append]
      exact .last moved closes
  | @Arguments.comma _ _ _ _ comma _ derived divides rest => by
      obtain ⟨others, moved, same⟩ := moved_fragments derived
      obtain ⟨more, movedRest, sameRest⟩ := moved_arguments rest
      refine ⟨.unresolved others (argumentRange others (comma.moved distance)) :: more, ?_,
        by simp only [eraseEach, Expr.erase, same, sameRest]⟩
      rw [List.map_append, List.map_cons]
      exact .comma moved divides movedRest

theorem moved_quoted {tokens : List PlacedToken} {duplication : Option Expr} {chain : Chain}
    {start stop : Nat} :
    Quoted tokens duplication chain start stop →
      ∃ factor others, Quoted (tokens.map (PlacedToken.moved distance)) factor others
          (start + distance) (stop + distance) ∧
        eraseOption factor = eraseOption duplication ∧ eraseChain others = eraseChain chain
  | .once token => ⟨none, _, .once token, rfl, Chain.erase_ofQuoted _ _ _⟩
  | @Quoted.repeated opener close placed _ _ raw opens derived closes token adjacent => by
      obtain ⟨others, moved, same⟩ := moved_fragments derived
      refine ⟨some (.unresolved others (.columns (opener.start + distance)
        (close.stop + distance))), .ofQuoted ((placed.moved distance).start + 1) raw.toList,
        ?_, ?_, Chain.erase_ofQuoted _ _ _⟩
      · rw [List.map_append, List.map_cons, List.map_append]
        exact .repeated opens moved closes token (congrArg (· + distance) adjacent)
      · simp only [eraseOption, Expr.erase, same]

theorem moved_selection {stop last : Nat} {tokens : List PlacedToken} {selection : Selection}
    {tail : Tail} :
    Selected stop tokens selection last tail →
      ∃ other, Selected (stop + distance) (tokens.map (PlacedToken.moved distance)) other
        (last + distance) (tail.moved distance) ∧ other.erase = selection.erase
  | .whole => ⟨.whole, .whole, rfl⟩
  | @Selected.toEnd _ _ comma _ _ _ _ opens adjacent derived divides isStar closes => by
      obtain ⟨others, moved, same⟩ := moved_fragments derived
      refine ⟨⟨some (.unresolved others (argumentRange others (comma.moved distance))), none, true⟩,
        ?_, by simp only [Selection.erase, eraseOption, Expr.erase, same]⟩
      rw [List.map_cons, List.map_append]
      exact .toEnd opens (congrArg (· + distance) adjacent) moved divides isStar closes
  | @Selected.counted _ _ comma close _ _ _ _ opens adjacent derived divides more first closes => by
      obtain ⟨starts, moved, same⟩ := moved_fragments derived
      obtain ⟨counts, movedMore, sameMore⟩ := moved_fragments more
      refine ⟨⟨some (.unresolved starts (argumentRange starts (comma.moved distance))),
        some (.unresolved counts (argumentRange counts (close.moved distance))), false⟩, ?_,
        by simp only [Selection.erase, eraseOption, Expr.erase, same, sameMore]⟩
      rw [List.map_cons, List.map_append, List.map_cons, List.map_append]
      refine .counted opens (congrArg (· + distance) adjacent) moved divides movedMore ?_ closes
      intro token isFirst
      rw [List.head?_map] at isFirst
      obtain ⟨placed, isPlaced, rfl⟩ := Option.mem_map.mp isFirst
      exact first placed isPlaced

theorem moved_pieces {behind : Option Nat} {tokens : List PlacedToken} {chain : Chain} :
    Pieces behind tokens chain →
      ∃ others,
        Pieces (behind.map (· + distance)) (tokens.map (PlacedToken.moved distance)) others ∧
          eraseChain others = eraseChain chain
  | .nil => ⟨[], .nil, rfl⟩
  | .identifier token rest => by
      obtain ⟨others, moved, same⟩ := moved_pieces rest
      exact ⟨_, .identifier token moved, by rw [eraseChain, eraseChain, same]⟩
  | .integer token rest => by
      obtain ⟨others, moved, same⟩ := moved_pieces rest
      exact ⟨_, .integer token moved, by rw [eraseChain, eraseChain, same]⟩
  | @Pieces.period behind placed _ _ token piece rest => by
      obtain ⟨others, moved, same⟩ := moved_pieces rest
      refine ⟨_, .period token ?_ moved, by rw [eraseChain, eraseChain, same]⟩
      cases behind with
      | none => nofun
      | some stop =>
          intro met
          exact piece (congrArg some (Nat.add_right_cancel (Option.some.inj met)))
  | @Pieces.endOfName placed _ _ token rest => by
      obtain ⟨others, moved, same⟩ := moved_pieces rest
      exact ⟨others, @Pieces.endOfName (placed.moved distance) _ _ token moved, same⟩
  | @Pieces.variableItem _ placed name _ _ reference _ _ token subscripted ends rest => by
      have bare : Moves distance ⟨.basic name, [], placed.range⟩
          ⟨.basic name, [], (placed.moved distance).range⟩ :=
        ⟨rfl, rfl⟩
      obtain ⟨other, movedReference, moves⟩ := moved_subscript subscripted bare
      obtain ⟨others, moved, same⟩ := moved_pieces rest
      refine ⟨.variableItem other :: others, ?_,
        by simp only [eraseChain, ChainItem.erase, moves.erase, same]⟩
      rw [List.map_cons, List.map_append]
      refine .variableItem token movedReference (ends.moved distance) ?_
      rw [moves.stop]
      exact moved

end

end Grammar

end ConditionalAssembly
