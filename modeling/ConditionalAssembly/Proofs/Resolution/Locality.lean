import ConditionalAssembly.Context
import ConditionalAssembly.Proofs.Evaluation.Alike
import ConditionalAssembly.Proofs.Resolution.Recovery
import ConditionalAssembly.Proofs.Resolution.Surroundings

/-!
# Failures of nested lists

A nested list that forms no expression is replaced by a zero.  Where a number is
asked for, a constant zero in the place of the list does as well: it stands as
an operand like the list did, it has the same value, and nothing else in the
lists around it depends on it.  All that is missing is what was reported about
the list itself.
-/

namespace ConditionalAssembly

/-! ## Reports with a piece left out -/

/-- From some reports a piece in the middle is left out. -/
def LeavesOut (lost original others : List Diagnostic) : Prop :=
  ∃ before after, original = before ++ lost ++ after ∧ others = before ++ after

namespace LeavesOut

variable {lost original others : List Diagnostic}

theorem whole (lost : List Diagnostic) : LeavesOut lost lost [] :=
  ⟨[], [], (List.append_nil lost).symm, rfl⟩

theorem behind (leavesOut : LeavesOut lost original others) (first : List Diagnostic) :
    LeavesOut lost (first ++ original) (first ++ others) := by
  obtain ⟨before, after, rfl, rfl⟩ := leavesOut
  exact ⟨first ++ before, after, by simp, by simp⟩

theorem inFront (leavesOut : LeavesOut lost original others) (last : List Diagnostic) :
    LeavesOut lost (original ++ last) (others ++ last) := by
  obtain ⟨before, after, rfl, rfl⟩ := leavesOut
  exact ⟨before, after ++ last, by simp, by simp⟩

end LeavesOut

/-! ## Standing in for a fragment -/

/-- Resolved to a domain, one fragment does what another does, except for a piece of what is
reported about the other.  It is taken for a text only if the other is, and for the same where texts
are asked for. -/
structure Expr.StandsInFor (other fragment : Expr) (lost : List Diagnostic) (domain : Domain) :
    Prop where
  noWord : fragment.word? = none
  otherNoWord : other.word? = none
  range : (other.resolve domain).value.range = (fragment.resolve domain).value.range
  evaluate (store : Store) :
    (other.resolve domain).value.evaluate store = (fragment.resolve domain).value.evaluate store
  reported : LeavesOut lost (fragment.resolve domain).diagnostics (other.resolve domain).diagnostics
  isText : other.isCharacterOperand = true → fragment.isCharacterOperand = true
  sameKind : domain = .character → other.isCharacterOperand = fragment.isCharacterOperand

/-- A zero does what a list does that was replaced by one. -/
theorem Expr.zero_standsInFor {faulty : List Expr} {place : Range}
    (recovers : ((Expr.unresolved faulty place).resolve .arithmetic).value.isRecovered = true) :
    (Expr.constant 0 place none).StandsInFor (.unresolved faulty place)
      ((Expr.unresolved faulty place).resolve .arithmetic).diagnostics .arithmetic := by
  have recovered : ((Expr.unresolved faulty place).resolve .arithmetic).value =
      .resolved (.constant 0 place (some .arithmetic)) true place .arithmetic := by
    rcases resolveWith_list_cases .arithmetic faulty place with ⟨phrase, _, whole⟩ | ⟨whole, _⟩
    · rw [Expr.resolve, OperatorTable.ofDomain, whole] at recovers
      cases recovers
    · exact whole
  constructor
  · rfl
  · rfl
  · rw [recovered]
    rfl
  · intro store
    rw [recovered, evaluate_recovered]
    rfl
  · exact .whole _
  · intro isText
    cases isText
  · intro isCharacter
    cases isCharacter

/-! ## Phrases with one operand exchanged -/

namespace Phrase.Replaces

variable {fragment other : Expr} {lost : List Diagnostic} {given asked : Domain}

section

variable {phrase replaced : Phrase Expr}
  (replaces : Replaces fragment other given asked phrase replaced)
  (stands : other.StandsInFor fragment lost given)

include replaces stands

theorem isText : replaced.isCharacter = true → phrase.isCharacter = true := by
  cases replaces with
  | operand => exact stands.isText
  | unary _ | left _ | right _ => exact id

theorem sameKind (texts : asked = .character) : replaced.isCharacter = phrase.isCharacter := by
  cases replaces with
  | operand => exact stands.sameKind texts
  | unary _ | left _ | right _ => rfl

end

section

variable {entry : OperatorEntry BinaryOperator} {left right replaced : Phrase Expr}
  (stands : other.StandsInFor fragment lost given)

include stands

/-- Whether the operands of an operator are compared as texts does not change: an operand that makes
them texts is one that texts are asked of. -/
theorem binaryDomain_left
    (replaces : Replaces fragment other given (binaryDomain entry left right) left replaced) :
    binaryDomain entry replaced right = binaryDomain entry left right := by
  have kept := replaces.isText stands
  have same := replaces.sameKind stands
  unfold binaryDomain at same ⊢
  generalize entry.operands = operands at same ⊢
  cases operands with
  | fixed domain => rfl
  | comparable =>
      cases leftKind : left.isCharacter with
      | true => rw [same (by rw [leftKind]; rfl), leftKind]
      | false =>
          cases replacedKind : replaced.isCharacter with
          | true => exact nomatch leftKind.symm.trans (kept replacedKind)
          | false => rfl

theorem binaryDomain_right
    (replaces : Replaces fragment other given (binaryDomain entry left right) right replaced) :
    binaryDomain entry left replaced = binaryDomain entry left right := by
  have flip (first second : Phrase Expr) :
      binaryDomain entry first second = binaryDomain entry second first := by
    rw [binaryDomain, binaryDomain, Bool.or_comm]
  rw [flip] at replaces
  rw [flip, binaryDomain_left stands replaces, flip]

end

section

variable {phrase replaced : Phrase Expr}

/-- The tree keeps its range and its value. -/
theorem tree_eq (replaces : Replaces fragment other given asked phrase replaced)
    (stands : other.StandsInFor fragment lost given) :
    (replaced.tree asked).range = (phrase.tree asked).range ∧
      ∀ store, (replaced.tree asked).evaluate store = (phrase.tree asked).evaluate store := by
  induction replaces with
  | operand => exact ⟨stands.range, stands.evaluate⟩
  | unary _ ih =>
      obtain ⟨range, value⟩ := ih
      constructor
      · rw [tree, tree, Expr.range, Expr.range, range]
      · intro store
        rw [tree, tree, Expr.evaluate, Expr.evaluate, range, value]
  | left replaces ih =>
      obtain ⟨range, value⟩ := ih
      constructor
      · rw [tree, tree, binaryDomain_left stands replaces, Expr.range, Expr.range, range]
      · intro store
        rw [tree, tree, binaryDomain_left stands replaces, Expr.evaluate, Expr.evaluate, range,
          value]
  | right replaces ih =>
      obtain ⟨range, value⟩ := ih
      constructor
      · rw [tree, tree, binaryDomain_right stands replaces, Expr.range, Expr.range, range]
      · intro store
        rw [tree, tree, binaryDomain_right stands replaces, Expr.evaluate, Expr.evaluate, range,
          value]

/-- A piece is left out of what is reported while the phrase is assembled, or else of what is
reported about the operand that is the whole phrase. -/
theorem reported_parts (replaces : Replaces fragment other given asked phrase replaced)
    (stands : other.StandsInFor fragment lost given) :
    LeavesOut lost (reportedBy phrase.built) (reportedBy replaced.built) ∧
        reportedBy (replaced.pending asked) = reportedBy (phrase.pending asked) ∨
      reportedBy replaced.built = reportedBy phrase.built ∧
        LeavesOut lost (reportedBy (phrase.pending asked))
          (reportedBy (replaced.pending asked)) := by
  induction replaces with
  | operand => exact .inr ⟨rfl, by simpa [pending, reportedBy] using stands.reported⟩
  | unary _ ih =>
      refine .inl ⟨?_, rfl⟩
      simp only [built, reportedBy_append]
      rcases ih with ⟨inBuilt, same⟩ | ⟨same, inPending⟩
      · rw [same]
        exact inBuilt.inFront _
      · rw [same]
        exact inPending.behind _
  | left replaces ih =>
      refine .inl ⟨?_, rfl⟩
      simp only [built, reportedBy_append, binaryDomain_left stands replaces]
      rcases ih with ⟨inBuilt, same⟩ | ⟨same, inPending⟩
      · rw [same]
        exact ((inBuilt.inFront _).inFront _).inFront _
      · rw [same]
        exact (inPending.behind _).inFront _
  | right replaces ih =>
      refine .inl ⟨?_, rfl⟩
      simp only [built, reportedBy_append, binaryDomain_right stands replaces]
      rcases ih with ⟨inBuilt, same⟩ | ⟨same, inPending⟩
      · rw [same]
        exact ((inBuilt.behind _).inFront _).inFront _
      · rw [same]
        exact inPending.behind _

theorem reported (replaces : Replaces fragment other given asked phrase replaced)
    (stands : other.StandsInFor fragment lost given) :
    LeavesOut lost (reportedBy (phrase.built ++ phrase.pending asked))
      (reportedBy (replaced.built ++ replaced.pending asked)) := by
  rw [reportedBy_append, reportedBy_append]
  rcases replaces.reported_parts stands with ⟨inBuilt, same⟩ | ⟨same, inPending⟩
  · rw [same]
    exact inBuilt.inFront _
  · rw [same]
    exact inPending.behind _

end

end Phrase.Replaces

/-! ## Lists with one operand exchanged -/

theorem operands_of_mem_character {entry : OperatorEntry BinaryOperator}
    (listed : .binary entry ∈ OperatorTable.character.entries) :
    entry.operands = .fixed .character := by
  simp [OperatorTable.character, OperatorTable.unaryLine, OperatorTable.binaryLine] at listed
  rw [listed]

/-- Of what stands first in a phrase that is a text, and is no function, a text is asked. -/
theorem Phrase.given_of_domainAt?_zero {phrase : Phrase Expr}
    (spelled : phrase.Spelled .character Expr.word?) {given : Domain}
    (found : phrase.domainAt? .character 0 = some given) : given = .character := by
  induction phrase with
  | operand fragment => exact (Option.some.inj found).symm
  | unary entry word inner _ => cases found
  | binary entry words left right ihLeft _ =>
      have takes := operands_of_mem_character spelled.1.1
      rw [domainAt?, if_pos left.length_items_pos, binaryDomain, takes] at found
      exact ihLeft spelled.2.1 found

namespace Expr

/-- A list that begins with a fragment without a word is a text if the fragment is, and no word
behind it makes a number of it. -/
theorem isCharacterOperand_of_noWord {fragment : Expr} (noWord : fragment.word? = none)
    (rest : List Expr) (range : Range) :
    (unresolved (fragment :: rest) range).isCharacterOperand =
      (!rest.any yieldsNumber && fragment.isCharacterOperand) := by
  simp [isCharacterOperand, yieldsNumber, yieldsCharacters, noWord]

namespace StandsInFor

variable {fragment other : Expr} {lost : List Diagnostic} {domain given : Domain}

theorem isCharacterOperand_cons (stands : other.StandsInFor fragment lost given) (first : Expr)
    (before after : List Expr) (range : Range) :
    (unresolved (first :: (before ++ other :: after)) range).isCharacterOperand =
      (unresolved (first :: (before ++ fragment :: after)) range).isCharacterOperand := by
  simp [isCharacterOperand, yieldsNumber, stands.noWord, stands.otherNoWord]

/-- A list in which an operand is exchanged stands in for the list. -/
theorem list (stands : other.StandsInFor fragment lost given) {before after : List Expr}
    {phrase : Phrase Expr}
    (formed : Phrase.ofItems (.ofDomain domain) word? (before ++ fragment :: after) = .ok phrase)
    (found : phrase.domainAt? domain before.length = some given) (range : Range) :
    (unresolved (before ++ other :: after) range).StandsInFor
      (unresolved (before ++ fragment :: after) range) lost domain := by
  obtain ⟨replaced, formedOther, replaces⟩ :=
    Phrase.exists_replaces stands.noWord stands.otherNoWord formed found
  have whole := resolveWith_of_phrase formed range
  have wholeOther := resolveWith_of_phrase formedOther range
  rw [OperatorTable.domain_ofDomain] at whole wholeOther
  obtain ⟨_, value⟩ := replaces.tree_eq stands
  constructor
  · rfl
  · rfl
  · rw [resolve, resolve, whole, wholeOther]
    rfl
  · intro store
    rw [resolve, resolve, whole, wholeOther]
    change (resolved _ _ _ _).evaluate store = (resolved _ _ _ _).evaluate store
    rw [evaluate_resolved, evaluate_resolved, value]
  · rw [resolve, resolve, whole, wholeOther]
    exact replaces.reported stands
  · cases before with
    | nil =>
        rw [List.nil_append, List.nil_append, isCharacterOperand_of_noWord stands.noWord,
          isCharacterOperand_of_noWord stands.otherNoWord, Bool.and_eq_true, Bool.and_eq_true]
        exact And.imp_right stands.isText
    | cons first before =>
        rw [List.cons_append, List.cons_append, stands.isCharacterOperand_cons]
        exact id
  · rintro rfl
    cases before with
    | nil =>
        have texts := Phrase.given_of_domainAt?_zero (Phrase.spelled_of_ofItems formed) found
        rw [List.nil_append, List.nil_append, isCharacterOperand_of_noWord stands.noWord,
          isCharacterOperand_of_noWord stands.otherNoWord, stands.sameKind texts]
    | cons first before => exact stands.isCharacterOperand_cons first before after range

end StandsInFor

/-- Whatever lists are around it, a fragment may be exchanged for one that stands in for it. -/
theorem standsInFor_plug {fragment other : Expr} {lost : List Diagnostic} {given : Domain}
    (stands : other.StandsInFor fragment lost given) {surrounding : Surrounding} {domain : Domain}
    (found : surrounding.domain? fragment domain = some given) :
    (surrounding.plug other).StandsInFor (surrounding.plug fragment) lost domain := by
  induction surrounding generalizing domain with
  | here =>
      cases found
      exact stands
  | list before after range inner ih =>
      rw [Surrounding.domain?] at found
      split at found
      next phrase formed =>
        obtain ⟨asked, isOperand, inside⟩ := Option.bind_eq_some_iff.mp found
        exact (ih inside).list formed isOperand range
      next => cases found

end Expr

/-- A failure inside nested lists stays local.  Where a number is asked for, a constant zero may be
put in the place of a list that is no expression: in every context the tree around it has the same
value and reports the same, and of what was reported while it was resolved exactly what is reported
about the list by itself is missing. -/
theorem nested_failure_is_zero {surrounding : Surrounding} {faulty : List Expr} {place : Range}
    {domain : Domain}
    (found : surrounding.domain? (.unresolved faulty place) domain = some .arithmetic)
    (recovers : ((Expr.unresolved faulty place).resolve .arithmetic).value.isRecovered = true) :
    let original := (surrounding.plug (.unresolved faulty place)).resolve domain
    let repaired := (surrounding.plug (.constant 0 place none)).resolve domain
    (∃ before after,
      original.diagnostics =
        before ++ ((Expr.unresolved faulty place).resolve .arithmetic).diagnostics ++ after ∧
        repaired.diagnostics = before ++ after) ∧
      ∀ context : Context,
        context.evaluate repaired.value = context.evaluate original.value ∧
        ∀ required, context.evaluateAs required repaired.value =
          context.evaluateAs required original.value := by
  intro original repaired
  have stands := Expr.standsInFor_plug (Expr.zero_standsInFor recovers) found
  refine ⟨stands.reported, fun context => ⟨?_, fun required => ?_⟩⟩
  · rw [Context.evaluate, Context.evaluate, stands.evaluate]
  · rw [Context.evaluateAs, Context.evaluateAs, Expr.evaluateAs, Expr.evaluateAs, stands.range,
      stands.evaluate]

/-- What is around `(3 4)` in `(2*(3 4)+&A) GT 5`. -/
def aroundFactor : Surrounding :=
  .list [] [.symbol "GT" (.columns 13 15) none, .constant 5 (.columns 16 17) none] (.columns 0 17)
    (.list [.constant 2 (.columns 1 2) none, .symbol "*" (.columns 2 3) none]
      [.symbol "+" (.columns 8 9) none, .variableTerm ⟨.basic "A", [], .columns 9 11⟩ none]
      (.columns 0 12) .here)

/-- In `(2*(3 4)+&A) GT 5` the list `(3 4)` counts as a zero.  That the variable is undefined is
reported all the same. -/
theorem nested_failure_is_zero_factor :
    let faulty := Expr.unresolved
      [.constant 3 (.columns 4 5) none, .constant 4 (.columns 6 7) none] (.columns 3 8)
    let repaired := aroundFactor.plug (.constant 0 (.columns 3 8) none)
    Expr.read "(2*(3 4)+&A) GT 5" = .ok (aroundFactor.plug faulty) ∧
      aroundFactor.domain? faulty .binary = some .arithmetic ∧
      (faulty.resolve .arithmetic).value.isRecovered = true ∧
      ((aroundFactor.plug faulty).resolve .binary).diagnostics =
        [⟨.invalidOperator, .columns 3 8⟩] ∧
      Context.evaluate {} (repaired.resolve .binary).value =
        (.binary false, ⟨{}, [⟨.undefinedVariable "A", .columns 9 11⟩]⟩) := by
  intro faulty repaired
  have found : aroundFactor.domain? faulty .binary = some .arithmetic := by cbv
  have recovers : (faulty.resolve .arithmetic).value.isRecovered = true := by cbv
  refine ⟨by cbv, found, recovers, by cbv, ?_⟩
  rw [((nested_failure_is_zero found recovers).2 {}).1]
  cbv

end ConditionalAssembly
