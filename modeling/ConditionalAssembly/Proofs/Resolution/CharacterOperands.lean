import Mathlib
import ConditionalAssembly.Expr.Reader
import ConditionalAssembly.Proofs.Phrase.Spelling
import ConditionalAssembly.Proofs.Resolution.Acceptance

/-!
# Character operands before and after resolution

Whether an operand is a character value is judged before it is resolved.  For
a list this is done by a look at its first fragment and at its words, whereas
the tree of the list has the answer at its root.  What is judged to be a
character value becomes one.  The converse needs the list to begin like one:
texts joined behind a variable become a character value that is overlooked.
-/

namespace ConditionalAssembly

/-! ## Character expressions at the level of a list -/

namespace Phrase

/-- In the character table signs and functions bind tightest, and what has two operands joins
them to a text. -/
theorem character_entries :
    (∀ entry, .unary entry ∈ OperatorTable.character.entries → entry.priority = 1) ∧
      ∀ entry, .binary entry ∈ OperatorTable.character.entries →
        entry.priority = 2 ∧ entry.result = .character := by
  constructor <;> intro entry listed <;>
    simp [OperatorTable.character, OperatorTable.unaryLine, OperatorTable.binaryLine] at listed
  · rcases listed with rfl | rfl | rfl | rfl | rfl | rfl | rfl <;> rfl
  · subst listed
    exact ⟨rfl, rfl⟩

/-- Somewhere between the operands of a phrase stands a binary operator. -/
def Joins (phrase : Phrase Expr) : Prop :=
  ∃ entry words, Part.binary entry words ∈ phrase.parts

/-- Below a unary operator of the character table no texts are joined. -/
theorem not_joins_of_below {phrase : Phrase Expr}
    (spelled : phrase.Spelled .character Expr.word?) (ordered : phrase.Ordered)
    (below : phrase.Below 1) : ¬ phrase.Joins := by
  induction phrase with
  | operand fragment => simp [Joins, parts]
  | unary entry word inner ih =>
      have tight := character_entries.1 entry spelled.1
      rintro ⟨found, words, inside⟩
      rcases List.mem_cons.mp inside with isUnary | inside
      · cases isUnary
      · exact ih spelled.2.2 ordered.2 (tight ▸ ordered.1) ⟨found, words, inside⟩
  | binary entry words left right _ _ =>
      have loose := (character_entries.2 entry spelled.1.1).1
      rw [below_binary, loose] at below
      contradiction

theorem yieldsCharacters_of_unary? {fragment : Expr} {entry : OperatorEntry UnaryOperator}
    (isUnary : fragment.word?.bind OperatorTable.character.unary? = some entry) :
    fragment.yieldsCharacters = decide (entry.result = .character) := by
  rw [Expr.yieldsCharacters, isUnary]

variable {fragments : List Expr} {phrase : Phrase Expr}

/-- Several fragments form a character value when they join texts or begin with a function that
gives one. -/
theorem isCharacter_iff_of_ofItems {first second : Expr} {rest : List Expr}
    (formed : ofItems .character Expr.word? (first :: second :: rest) = .ok phrase) :
    phrase.isCharacter = true ↔ phrase.Joins ∨ first.yieldsCharacters = true := by
  have bounded := OperatorTable.bounded_ofDomain .character
  obtain ⟨passed, ordered⟩ := (ofItems_eq_ok_iff bounded).mp formed
  have spelled := spelled_of_ofItems formed
  cases phrase with
  | operand fragment => cases items_of_ofItems formed
  | unary entry word inner =>
      have apart := not_joins_of_below spelled ordered (below_unary entry word inner 1)
      rw [yieldsCharacters_of_unary? (unary_of_scan passed).1]
      simp [apart, isCharacter]
  | binary entry words left right =>
      have joins : (binary entry words left right).Joins :=
        ⟨entry, words, List.mem_append_right _ (List.mem_cons_self ..)⟩
      have gives := (character_entries.2 entry spelled.1.1).2
      simp [joins, isCharacter, gives]

/-- Several fragments of which the first is text by itself join texts. -/
theorem joins_of_isCharacterOperand {first second : Expr} {rest : List Expr}
    (formed : ofItems .character Expr.word? (first :: second :: rest) = .ok phrase)
    (isText : first.isCharacterOperand = true) : phrase.Joins := by
  have passed := ((ofItems_eq_ok_iff (OperatorTable.bounded_ofDomain .character)).mp formed).1
  cases phrase with
  | operand fragment => cases items_of_ofItems formed
  | unary entry word inner =>
      have isWord := (unary_of_scan passed).1
      cases first <;> simp [Expr.word?, Expr.isCharacterOperand] at isWord isText
  | binary entry words left right =>
      exact ⟨entry, words, List.mem_append_right _ (List.mem_cons_self ..)⟩

theorem isCharacterOperand_tree_of_items (spelled : phrase.items.length ≠ 1) (domain : Domain) :
    (phrase.tree domain).isCharacterOperand = phrase.isCharacter := by
  cases phrase with
  | operand fragment => exact absurd rfl spelled
  | unary entry word inner => rfl
  | binary entry words left right => rfl

end Phrase

/-! ## Judging before and after -/

namespace Expr

/-- A list shows by its beginning whether it is a character value: if it joins texts or begins
with a function that gives one, its first fragment is seen to be text or to give it, and none of
its words is taken for an operator that turns texts into a number.  Around a single fragment
parentheses change nothing. -/
def ShowsItsKind : Expr → Prop
  | .unresolved [fragment] _ => fragment.ShowsItsKind
  | .unresolved (first :: second :: rest) _ =>
      (∃ phrase, Phrase.ofItems .character word? (first :: second :: rest) = .ok phrase ∧
          (phrase.Joins ∨ first.yieldsCharacters = true)) →
        (first.isCharacterOperand = true ∨ first.yieldsCharacters = true) ∧
          ∀ fragment ∈ first :: second :: rest, fragment.yieldsNumber = false
  | _ => True

/-- Terms and trees are seen for what they are before and after they are resolved. -/
theorem isCharacterOperand_resolve_of_isResolved {expr : Expr} (isTerm : expr.isResolved = true)
    (domain : Domain) :
    (expr.resolve domain).value.isCharacterOperand = expr.isCharacterOperand := by
  cases expr with
  | unresolved fragments range => cases isTerm
  | variableTerm reference domain => cases domain <;> rfl
  | string term range domain =>
      rcases term with ⟨duplication, chain, start, count, toEnd⟩
      cases domain <;> rfl
  | _ => rfl

theorem isCharacterOperand_single {fragment : Expr}
    (notUnary : fragment.word?.bind OperatorTable.character.unary? = none) (range : Range) :
    (unresolved [fragment] range).isCharacterOperand = fragment.isCharacterOperand := by
  have plain : fragment.yieldsCharacters = false := by simp [yieldsCharacters, notUnary]
  cases fragment <;>
    simp [isCharacterOperand, plain, yieldsNumber, word?]

theorem isCharacterOperand_cons (first : Expr) (rest : List Expr) (range : Range) :
    (unresolved (first :: rest) range).isCharacterOperand = true ↔
      (first.isCharacterOperand = true ∨ first.yieldsCharacters = true) ∧
        ∀ fragment ∈ first :: rest, fragment.yieldsNumber = false := by
  simp [isCharacterOperand, and_comm]

/-- An expression that is resolved without a diagnostic is a character value afterwards if it was
seen to be one before, and it was seen for what it is exactly if it shows its kind. -/
theorem isCharacterOperand_resolve :
    ∀ (expr : Expr), (expr.resolve .character).diagnostics = [] →
      (expr.isCharacterOperand = true →
        (expr.resolve .character).value.isCharacterOperand = true) ∧
      ((expr.resolve .character).value.isCharacterOperand = expr.isCharacterOperand ↔
        expr.ShowsItsKind)
  | .unresolved [] range, quiet => by
      obtain ⟨phrase, formed, _⟩ := exists_phrase_of_quiet quiet
      have passed := (Phrase.ofItems_eq_ok_iff (OperatorTable.bounded_ofDomain _)).mp formed
      cases Phrase.scan_operand_nil.symm.trans passed.1
  | .unresolved [fragment] range, quiet => by
      obtain ⟨phrase, formed, whole, silent⟩ := exists_phrase_of_quiet quiet
      obtain ⟨rfl, notUnary⟩ :=
        Phrase.eq_operand_of_ofItems (OperatorTable.bounded_ofDomain .character) formed
      have inside : (fragment.resolve .character).diagnostics = [] := by
        simpa [Phrase.built, Phrase.pending, reportedBy] using silent
      rw [whole, isCharacterOperand, isCharacterOperand_single notUnary, ShowsItsKind]
      exact isCharacterOperand_resolve fragment inside
  | .unresolved (first :: second :: rest) range, quiet => by
      obtain ⟨phrase, formed, whole, silent⟩ := exists_phrase_of_quiet quiet
      have several : phrase.items.length ≠ 1 := by
        rw [Phrase.items_of_ofItems formed]
        simp
      have after := Phrase.isCharacter_iff_of_ofItems formed
      have before := isCharacterOperand_cons first (second :: rest) range
      rw [whole, isCharacterOperand, Phrase.isCharacterOperand_tree_of_items several, ShowsItsKind]
      have kept : (unresolved (first :: second :: rest) range).isCharacterOperand = true →
          phrase.isCharacter = true := by
        intro seen
        rcases (before.mp seen).1 with isText | isFunction
        · exact after.mpr (.inl (Phrase.joins_of_isCharacterOperand formed isText))
        · exact after.mpr (.inr isFunction)
      refine ⟨kept, ?_, fun shows => ?_⟩
      · rintro same ⟨other, otherFormed, isText⟩
        cases Except.ok.inj (otherFormed.symm.trans formed)
        exact before.mp (same ▸ after.mpr isText)
      · rw [Bool.eq_iff_iff]
        exact ⟨fun isText => before.mpr (shows ⟨phrase, formed, after.mp isText⟩), kept⟩
  | .constant _ _ _, _ | .symbol _ _ _, _ | .variableTerm _ _, _ | .symbolAttribute _ _ _ _, _
  | .variableAttribute _ _ _ _, _ | .string _ _ _, _ | .resolved _ _ _ _, _
  | .unary _ _ _ _ _, _ | .binary _ _ _ _ _ _, _ => by
      rw [isCharacterOperand_resolve_of_isResolved rfl]
      exact ⟨id, iff_of_true rfl trivial⟩

end Expr

/-- The list in `(UPPER 'a')`, which begins with a function. -/
def upperList : Expr :=
  .unresolved [.symbol "UPPER" (.columns 1 6) none,
    .string ⟨none, [.text "a"], .whole⟩ (.columns 7 10) none] (.columns 0 11)

/-- A function in parentheses is seen to be a character value, as it is one. -/
theorem isCharacterOperand_resolve_upper :
    (upperList.resolve .character).diagnostics = [] ∧
      upperList.isCharacterOperand = true ∧
      (upperList.resolve .character).value.isCharacterOperand = true ∧ upperList.ShowsItsKind := by
  have quiet : (upperList.resolve .character).diagnostics = [] := by cbv
  have seen : upperList.isCharacterOperand = true := by cbv
  obtain ⟨kept, shows⟩ := Expr.isCharacterOperand_resolve upperList quiet
  exact ⟨quiet, seen, kept seen, shows.mp ((kept seen).trans seen.symm)⟩

/-- The list in `(&P.'X')`, which begins with a variable. -/
def joinedList : Expr :=
  .unresolved [.variableTerm ⟨.basic "P", [], .columns 1 3⟩ none, .symbol "." (.columns 3 4) none,
    .string ⟨none, [.text "X"], .whole⟩ (.columns 4 7) none] (.columns 0 8)

/-- A text joined to a variable is overlooked in parentheses, so what is in them is taken for a
number and refused; without them the same texts are compared. -/
theorem joined_text_overlooked :
    Expr.read "(&P.'X') EQ 'AX'" = .ok (.unresolved [joinedList, .symbol "EQ" (.columns 9 11) none,
        .string ⟨none, [.text "AX"], .whole⟩ (.columns 12 16) none] (.columns 0 16)) ∧
      (joinedList.resolve .character).diagnostics = [] ∧
      joinedList.isCharacterOperand = false ∧
      (joinedList.resolve .character).value.isCharacterOperand = true ∧
      (Expr.read "(&P.'X') EQ (&Q.'X')").map (fun expr => (expr.resolve .binary).diagnostics) =
        .ok [⟨.invalidOperator, .columns 0 8⟩, ⟨.invalidOperator, .columns 12 20⟩] ∧
      (Expr.read "&P.'X' EQ &Q.'X'").map (fun expr => (expr.resolve .binary).diagnostics) =
        .ok [] := by
  refine ⟨?_, ?_, ?_, ?_, ?_, ?_⟩ <;> cbv

end ConditionalAssembly
