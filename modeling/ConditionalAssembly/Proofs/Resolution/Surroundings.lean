import ConditionalAssembly.Proofs.Resolution.CharacterOperands

/-!
# The surroundings of an operand

A fragment deep inside nested lists is what is put into a gap of its
surroundings.  A fragment that is no word may be exchanged for another: the
lists around it are grouped as before, and the operands beside it stay the same.
What may change is whether an operand of a comparison is taken for a text, and
with it the domain in which other operands are resolved.
-/

namespace ConditionalAssembly

/-! ## Lists around a gap -/

/-- The nested lists around a gap, from the outermost to the innermost. -/
inductive Surrounding where
  | here
  | list (before after : List Expr) (range : Range) (inner : Surrounding)

/-- The expression with a fragment in the gap. -/
def Surrounding.plug (fragment : Expr) : Surrounding → Expr
  | .here => fragment
  | .list before after range inner =>
      .unresolved (before ++ inner.plug fragment :: after) range

/-- The domain to which the fragment at some place of a phrase is resolved, if it is an operand of
the phrase and no word of an operator. -/
def Phrase.domainAt? (asked : Domain) : Phrase Expr → Nat → Option Domain
  | .operand _, 0 => some asked
  | .operand _, _ + 1 => none
  | .unary _ _ _, 0 => none
  | .unary entry _ inner, place + 1 => inner.domainAt? (unaryDomain entry) place
  | .binary entry words left right, place =>
      if place < left.items.length then left.domainAt? (binaryDomain entry left right) place
      else if place < (left.items ++ words).length then none
      else right.domainAt? (binaryDomain entry left right)
        (place - (left.items ++ words).length)

/-- The domain to which a fragment in the gap is resolved, if every list around it is a phrase of
which the next one is an operand. -/
def Surrounding.domain? (fragment : Expr) : Surrounding → Domain → Option Domain
  | .here, asked => some asked
  | .list before after _ inner, asked =>
      match Phrase.ofItems (.ofDomain asked) Expr.word?
          (before ++ inner.plug fragment :: after) with
      | .ok phrase => do inner.domain? fragment (← phrase.domainAt? asked before.length)
      | .error _ => none

namespace Phrase

/-! ## Exchanging an operand -/

/-- One operand of a phrase that is resolved to some domain is exchanged for another. -/
inductive Replaces (fragment other : Expr) (given : Domain) :
    Domain → Phrase Expr → Phrase Expr → Prop where
  | operand : Replaces fragment other given given (.operand fragment) (.operand other)
  | unary {asked : Domain} {entry : OperatorEntry UnaryOperator} {word : Expr}
      {inner replaced : Phrase Expr} :
      Replaces fragment other given (unaryDomain entry) inner replaced →
      Replaces fragment other given asked (.unary entry word inner) (.unary entry word replaced)
  | left {asked : Domain} {entry : OperatorEntry BinaryOperator} {words : List Expr}
      {left replaced right : Phrase Expr} :
      Replaces fragment other given (binaryDomain entry left right) left replaced →
      Replaces fragment other given asked (.binary entry words left right)
        (.binary entry words replaced right)
  | right {asked : Domain} {entry : OperatorEntry BinaryOperator} {words : List Expr}
      {left right replaced : Phrase Expr} :
      Replaces fragment other given (binaryDomain entry left right) right replaced →
      Replaces fragment other given asked (.binary entry words left right)
        (.binary entry words left replaced)

/-- Of a list with a gap that a fragment without a word fills, the phrase has the gap as well, and
every other such fragment may fill it. -/
theorem exists_gapped {table : OperatorTable} {before after : List Expr} {fragment : Expr}
    {phrase : Phrase Expr} (noWord : fragment.word? = none)
    (formed : ofItems table Expr.word? (before ++ fragment :: after) = .ok phrase) :
    ∃ gapped : Phrase (Option Expr),
      gapped.items = before.map some ++ none :: after.map some ∧
      gapped.map (·.getD fragment) = phrase ∧
      ∀ other : Expr, other.word? = none →
        ofItems table Expr.word? (before ++ other :: after) = .ok (gapped.map (·.getD other)) := by
  have filled (filler : Expr) :
      (before.map some ++ none :: after.map some).map (·.getD filler) =
        before ++ filler :: after := by
    simp
  have words {filler : Expr} (wordless : filler.word? = none) :
      Expr.word? ∘ (·.getD filler) = fun item : Option Expr => item.bind Expr.word? := by
    funext item
    cases item with
    | none => exact wordless
    | some item => rfl
  rw [← filled fragment] at formed
  obtain ⟨gapped, gappedFormed⟩ := exists_ofItems_of_map formed
  refine ⟨gapped, items_of_ofItems gappedFormed, ?_, fun other otherNoWord => ?_⟩
  · exact Except.ok.inj ((ofItems_map_ok gappedFormed).symm.trans formed)
  · rw [words noWord, ← words otherNoWord] at gappedFormed
    rw [← filled other]
    exact ofItems_map_ok gappedFormed

variable {fragment other : Expr}

theorem getD_eq {item : Option Expr} (isItem : item ≠ none) :
    item.getD fragment = item.getD other := by
  cases item with
  | none => exact absurd rfl isItem
  | some item => rfl

/-- Where there is no gap, nothing is filled in. -/
theorem map_getD_eq {gapped : Phrase (Option Expr)} (full : ∀ item ∈ gapped.items, item ≠ none) :
    gapped.map (·.getD fragment) = gapped.map (·.getD other) := by
  induction gapped with
  | operand item => exact congrArg operand (getD_eq (full item (List.mem_singleton_self item)))
  | unary entry word inner ih =>
      obtain ⟨first, others⟩ := List.forall_mem_cons.mp full
      rw [map, map, getD_eq first, ih others]
  | binary entry words left right ihLeft ihRight =>
      obtain ⟨front, inRight⟩ := List.forall_mem_append.mp full
      obtain ⟨inLeft, inWords⟩ := List.forall_mem_append.mp front
      have spelled : words.map (·.getD fragment) = words.map (·.getD other) :=
        List.map_congr_left fun item isItem => getD_eq (inWords item isItem)
      rw [map, map, ihLeft inLeft, ihRight inRight, spelled]

theorem map_items {α β : Type} (f : α → β) (phrase : Phrase α) :
    phrase.items.map f = (phrase.map f).items := by
  induction phrase with
  | operand item => rfl
  | unary entry word inner ih => exact congrArg (f word :: ·) ih
  | binary entry words left right ihLeft ihRight => simp [map, items, ihLeft, ihRight]

/-- An item that is counted among the first of two lists stands in it. -/
theorem split_of_lt {α : Type} {first second before after : List α} {item : α}
    (same : first ++ second = before ++ item :: after) (inFirst : before.length < first.length) :
    ∃ between, first = before ++ item :: between ∧ after = between ++ second := by
  rcases List.append_eq_append_iff.mp same with ⟨between, rfl, _⟩ | ⟨between, rfl, behind⟩
  · simp at inFirst
  · cases between with
    | nil => simp at inFirst
    | cons head between =>
        cases behind
        exact ⟨between, rfl, rfl⟩

theorem split_of_le {α : Type} {first second before after : List α} {item : α}
    (same : first ++ second = before ++ item :: after) (behind : first.length ≤ before.length) :
    ∃ between, before = first ++ between ∧ second = between ++ item :: after := by
  rcases List.append_eq_append_iff.mp same with ⟨between, rfl, rest⟩ | ⟨between, rfl, rest⟩
  · exact ⟨between, rfl, rest⟩
  · cases between with
    | nil => exact ⟨[], by simp, by simpa using rest.symm⟩
    | cons head between => simp at behind

/-- A phrase with a single gap, at an operand, has this operand exchanged when the gap is filled
with another fragment. -/
theorem replaces_of_gap {gapped : Phrase (Option Expr)} {before after : List (Option Expr)}
    (gap : gapped.items = before ++ none :: after) (full : ∀ item ∈ before ++ after, item ≠ none)
    {asked given : Domain}
    (found : (gapped.map (·.getD fragment)).domainAt? asked before.length = some given) :
    Replaces fragment other given asked (gapped.map (·.getD fragment))
      (gapped.map (·.getD other)) := by
  induction gapped generalizing before after asked with
  | operand item =>
      cases before with
      | nil =>
          cases gap
          cases found
          exact .operand
      | cons first rest => cases found
  | unary entry word inner ih =>
      cases before with
      | nil => cases found
      | cons first rest =>
          obtain ⟨rfl, inside⟩ := List.cons.inj gap
          obtain ⟨isWord, others⟩ := List.forall_mem_cons.mp full
          obtain ⟨word, rfl⟩ := Option.ne_none_iff_exists'.mp isWord
          exact .unary (ih inside others found)
  | binary entry words left right ihLeft ihRight =>
      have exchanged {words : List (Option Expr)} (noGap : ∀ item ∈ words, item ≠ none) :
          words.map (·.getD fragment) = words.map (·.getD other) :=
        List.map_congr_left fun item isItem => getD_eq (noGap item isItem)
      rw [map, domainAt?, ← map_items, ← List.map_append] at found
      simp only [List.length_map] at found
      rw [items] at gap
      rw [map, map]
      split at found
      next inLeft =>
        rw [List.append_assoc] at gap
        obtain ⟨between, leftGap, rfl⟩ := split_of_lt gap inLeft
        obtain ⟨inBefore, behind⟩ := List.forall_mem_append.mp full
        obtain ⟨inBetween, behind⟩ := List.forall_mem_append.mp behind
        obtain ⟨inWords, inRight⟩ := List.forall_mem_append.mp behind
        have inside := List.forall_mem_append.mpr ⟨inBefore, inBetween⟩
        have rightSame : right.map (·.getD fragment) = right.map (·.getD other) :=
          map_getD_eq inRight
        rw [exchanged inWords, ← rightSame]
        exact .left (ihLeft leftGap inside found)
      next behindLeft =>
        split at found
        next => cases found
        next behindWords =>
          obtain ⟨between, rfl, rightGap⟩ := split_of_le gap (Nat.le_of_not_lt behindWords)
          obtain ⟨front, inAfter⟩ := List.forall_mem_append.mp full
          obtain ⟨front, inBetween⟩ := List.forall_mem_append.mp front
          obtain ⟨inLeft, inWords⟩ := List.forall_mem_append.mp front
          have inside := List.forall_mem_append.mpr ⟨inBetween, inAfter⟩
          rw [List.length_append, Nat.add_sub_cancel_left] at found
          have leftSame : left.map (·.getD fragment) = left.map (·.getD other) :=
            map_getD_eq inLeft
          rw [exchanged inWords, ← leftSame]
          exact .right (ihRight rightGap inside found)

/-- In a list that is a phrase, an operand without a word may be exchanged for any other. -/
theorem exists_replaces {table : OperatorTable} {before after : List Expr} {phrase : Phrase Expr}
    (noWord : fragment.word? = none) (otherNoWord : other.word? = none)
    (formed : ofItems table Expr.word? (before ++ fragment :: after) = .ok phrase)
    {asked given : Domain} (found : phrase.domainAt? asked before.length = some given) :
    ∃ replaced, ofItems table Expr.word? (before ++ other :: after) = .ok replaced ∧
      Replaces fragment other given asked phrase replaced := by
  obtain ⟨gapped, gap, rfl, filled⟩ := exists_gapped noWord formed
  have full : ∀ item ∈ before.map some ++ after.map some, item ≠ none := by
    rw [← List.map_append, List.forall_mem_map]
    exact fun item _ => Option.some_ne_none item
  rw [← List.length_map some] at found
  exact ⟨_, filled other otherNoWord, replaces_of_gap gap full found⟩

end Phrase

end ConditionalAssembly
