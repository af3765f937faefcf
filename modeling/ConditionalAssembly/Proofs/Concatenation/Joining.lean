import Mathlib.Data.List.Flatten
import ConditionalAssembly.Context
import ConditionalAssembly.Proofs.Evaluation.Parentheses
import ConditionalAssembly.Proofs.Evaluation.Strings
import ConditionalAssembly.Proofs.Phrase.Spelling

/-!
# Any number of texts joined by periods

Texts with periods between them are joined from left to right, and parentheses
may group them in any other way.  Every period has a node of its own, whose
text is cut at the greatest length.  What is cut off a front would stand behind
the characters that are kept in the end, so cutting every time gives the same
text as cutting once.
-/

namespace ConditionalAssembly

/-! ## Lists that begin with a list -/

/-- No binary operator of the table takes a `NOT` along. -/
def OperatorTable.IsPlain (table : OperatorTable) : Prop :=
  ∀ entry, .binary entry ∈ table.entries → entry.notForm = false

namespace Phrase

variable {α : Type} {table : OperatorTable} {word? : α → Option String}

/-- Without joined operators, the one at the front of a list does not depend on what follows. -/
theorem operatorAt?_append (plain : table.IsPlain) {items : List α} {operator : OperatorAt α}
    (found : operatorAt? table word? items = some operator) (behind : List α) :
    operatorAt? table word? (items ++ behind) =
      some { operator with rest := operator.rest ++ behind } := by
  obtain ⟨item, rest, word, entry, rfl, spelled, isBinary, alone | joined⟩ :=
    operatorAt?_cases found
  · rcases alone with ⟨rfl, _⟩
    have notForm := plain entry (OperatorTable.name_of_binary? isBinary).2
    exact operatorAt?_of_binary spelled isBinary (by simp [notForm])
  · rcases joined with ⟨_, _, _, _, notForm, _⟩
    have alone := plain entry (OperatorTable.name_of_binary? isBinary).2
    cases alone.symm.trans notForm

/-- A list that is passed is passed in the same way whatever follows. -/
theorem scan_append (plain : table.IsPlain) {due : Due} {items : List α} {parts : List (Part α)}
    (passed : scan table word? due items = .ok parts) (behind : List α) :
    scan table word? due (items ++ behind) =
      (scan table word? .operator behind).map (parts ++ ·) := by
  fun_induction scan table word? due items generalizing parts with
  | case1 => cases passed
  | case2 item rest entry isUnary ih =>
      rcases map_eq_ok_iff.mp passed with ⟨more, passedRest, rfl⟩
      rw [List.cons_append, scan_of_unary isUnary, ih passedRest, map_map_result]
      rfl
  | case3 item rest notUnary ih =>
      rcases map_eq_ok_iff.mp passed with ⟨more, passedRest, rfl⟩
      rw [List.cons_append, scan_of_not_unary notUnary, ih passedRest, map_map_result]
      rfl
  | case4 =>
      cases passed
      rw [List.nil_append]
      cases scan table word? .operator behind <;> rfl
  | case5 => cases passed
  | case6 item after operator found _ ih =>
      rcases map_eq_ok_iff.mp passed with ⟨more, passedRest, rfl⟩
      rw [scan_of_operator (operatorAt?_append plain found behind), ih passedRest, map_map_result]
      rfl

theorem within_of_spelled {phrase : Phrase α} (spelled : phrase.Spelled table word?) {limit : Int}
    (tight : ∀ line ∈ table.entries, line.priority ≤ limit) : phrase.Within limit := by
  induction phrase with
  | operand item => exact within_operand item limit
  | unary entry word inner ih => exact within_unary.mpr ⟨tight _ spelled.1, ih spelled.2.2⟩
  | binary entry words left right _ ihRight =>
      exact within_binary.mpr ⟨tight _ spelled.1.1, ihRight spelled.2.2⟩

/-- A phrase with another operand behind it takes it by an operator as loose as any of its own. -/
theorem ofItems_snoc (plain : table.IsPlain) (bounded : table.Bounded) {items : List α}
    {phrase : Phrase α} (formed : ofItems table word? items = .ok phrase) {word item : α}
    {entry : OperatorEntry BinaryOperator} (isBinary : (word? word).bind table.binary? = some entry)
    (loosest : ∀ line ∈ table.entries, line.priority ≤ entry.priority)
    (notUnary : (word? item).bind table.unary? = none) :
    ofItems table word? (items ++ [word, item]) =
      .ok (.binary entry [word] phrase (.operand item)) := by
  obtain ⟨passed, ordered⟩ := (ofItems_eq_ok_iff bounded).mp formed
  rcases Option.bind_eq_some_iff.mp isBinary with ⟨name, spelled, found⟩
  have notForm := plain entry (OperatorTable.name_of_binary? found).2
  have operator : operatorAt? table word? [word, item] = some ⟨entry, [word], [item]⟩ :=
    operatorAt?_of_binary spelled found (by simp [notForm])
  -- The operator behind the phrase is as loose as any, so the whole phrase stands to its left.
  have within := within_of_spelled (spelled_of_ofItems formed) loosest
  apply (ofItems_eq_ok_iff bounded).mpr
  constructor
  · rw [scan_append plain passed, scan_of_operator operator, scan_of_not_unary notUnary,
      scan_operator_nil]
    rfl
  · exact ⟨⟨within, ordered⟩, below_operand item _, trivial⟩

end Phrase

/-- Character expressions have a single binary operator, and it takes no `NOT` along. -/
theorem OperatorTable.isPlain_character : character.IsPlain := by
  intro entry listed
  have plain : ∀ line ∈ character.entries, ∀ entry ∈ line.binary?, entry.notForm = false := by
    decide
  exact plain _ listed entry rfl

/-! ## Texts with periods between them -/

namespace Expr

/-- The fragment stands as an operand of a character expression and has a text for its value. -/
structure IsText (fragment : Expr) : Prop where
  notUnary : fragment.word?.bind OperatorTable.character.unary? = none
  domain : fragment.domain?.getD .character = .character

theorem isText_string (term : StringTerm) (range : Range) : (string term range none).IsText :=
  ⟨rfl, rfl⟩

theorem isText_variableTerm (reference : VariableSymbol) : (variableTerm reference none).IsText :=
  ⟨rfl, rfl⟩

/-- What a fragment gives by itself where a text is required. -/
def own (store : Store) (fragment : Expr) : Reported Value :=
  (fragment.resolve .character).value.evaluate store

/-- The text that a fragment gives by itself. -/
def ownText (store : Store) (fragment : Expr) : List Char :=
  ((fragment.own store).value.toText?.getD "").toList

end Expr

/-- The operands make up a list of fragments, with periods between them.  Wherever one may stand,
such a list may stand between parentheses. -/
inductive Joined : List Expr → List Expr → Prop where
  | operand {fragment : Expr} : fragment.IsText → Joined [fragment] [fragment]
  | group {operands fragments : List Expr} (range : Range) :
      Joined operands fragments → Joined operands [.unresolved fragments range]
  | join {front last fragments : List Expr} {period item : Expr} :
      Joined front fragments → period.word? = some BinaryOperator.concat.text →
      Joined last [item] → Joined (front ++ last) (fragments ++ [period, item])

theorem Joined.isText {operands fragments : List Expr} (joined : Joined operands fragments)
    {operand : Expr} (isOperand : operand ∈ operands) : operand.IsText := by
  induction joined with
  | operand isText => rwa [List.mem_singleton.mp isOperand]
  | group _ _ ih => exact ih isOperand
  | join _ _ _ ihFront ihLast =>
      rcases List.mem_append.mp isOperand with inFront | inLast
      · exact ihFront inFront
      · exact ihLast inLast

open Evaluation in
/-- A variable gives the text it holds. -/
theorem Expr.own_variable {store : Store} {name : String} {text : List Char}
    (held : store.value? name [] = some (.character (String.ofList text)))
    (fits : text.length ≤ Value.maxLength) (range : Range) :
    (Expr.variableTerm ⟨.basic name, [], range⟩ none).own store =
      ⟨.character (String.ofList text), []⟩ := by
  have evaluated : VariableSymbol.evaluate store ⟨.basic name, [], range⟩ =
      (·.map .character) <$>
        (⟨.ok (String.ofList text), []⟩ : Reported (Except Problem String)) := by
    simp [VariableSymbol.evaluate, VariableName.evaluate, evaluateWords, variableValue, held]
    rfl
  have resolved : (Expr.variableTerm ⟨.basic name, [], range⟩ none).resolve .character =
      ⟨.variableTerm ⟨.basic name, [], range⟩ (some .character), []⟩ := rfl
  rw [own, resolved, Expr.evaluate, evaluated, settle_limited, if_pos fits,
    List.take_of_length_le fits]
  rfl

namespace Expr.IsText

variable {fragment : Expr} (isText : fragment.IsText) (store : Store)

include isText

theorem domain?_resolve : (fragment.resolve .character).value.domain? = some .character := by
  rw [Expr.domain?_resolve, isText.domain]

theorem value_own :
    (fragment.own store).value = .character (String.ofList (fragment.ownText store)) := by
  have domain : (fragment.own store).value.domain = .character := by
    rw [own, Expr.domain_evaluate, isText.domain?_resolve]
    rfl
  rw [ownText]
  cases held : (fragment.own store).value with
  | character text => simp [Value.toText?]
  | _ => cases held ▸ domain

theorem length_ownText_le : (fragment.ownText store).length ≤ Value.maxLength := by
  have fits := (fragment.resolve .character).value.fits_evaluate store
  have value := isText.value_own store
  rw [own] at value
  rw [value] at fits
  simpa [Value.Fits] using fits

end Expr.IsText

/-! ## Values of joined texts -/

/-- Of two lists that are cut first, no less is kept of their concatenation. -/
theorem take_append_take {α : Type} (limit : Nat) (front back : List α) :
    (front.take limit ++ back.take limit).take limit = (front ++ back).take limit := by
  have left : limit - min limit front.length = limit - front.length := by omega
  have right : min (limit - front.length) limit = limit - front.length := by omega
  rw [List.take_append, List.take_append, List.take_take, List.take_take, List.length_take,
    min_self, left, right]

open Evaluation in
/-- The node of a period joins the texts of its operands and cuts the result. -/
theorem Expr.evaluate_concat {store : Store} {left right : Expr} {front back : List Char}
    (leftValue : (left.evaluate store).value = .character (String.ofList front))
    (rightValue : (right.evaluate store).value = .character (String.ofList back))
    (range : Range) :
    (Expr.binary .concat left right range .character .character).evaluate store =
      ⟨.character (String.ofList ((front ++ back).take Value.maxLength)),
        (left.evaluate store).diagnostics ++ (right.evaluate store).diagnostics ++
          if (front ++ back).length ≤ Value.maxLength then []
          else [⟨.stringTooLong (front ++ back).length Value.maxLength, range⟩]⟩ := by
  have conforms (text : String) (place : Range) :
      conform .character place (.character text) = pure (.character text) :=
    conform_of_domain rfl place
  rw [← settle_limited, Expr.evaluate]
  congr 1
  apply Reported.ext
  · simp [leftValue, rightValue, conforms, BinaryOperator.apply, BinaryOperator.textual,
      Except.map, String.ofList_append]
  · simp [leftValue, rightValue, conforms]

/-- Some diagnostics with others among them, which only say that a text is too long. -/
structure WithLengths (found added whole : List Diagnostic) : Prop where
  kept : found.Sublist whole
  nothingElse : whole.Perm (found ++ added)
  lengths : ∀ diagnostic ∈ added, ∃ length range,
    diagnostic = ⟨.stringTooLong length Value.maxLength, range⟩

namespace WithLengths

theorem refl (found : List Diagnostic) : WithLengths found [] found where
  kept := List.Sublist.refl found
  nothingElse := by rw [List.append_nil]
  lengths := nofun

theorem tooLong (length : Nat) (range : Range) :
    WithLengths [] [⟨.stringTooLong length Value.maxLength, range⟩]
      [⟨.stringTooLong length Value.maxLength, range⟩] where
  kept := List.nil_sublist _
  nothingElse := List.Perm.refl _
  lengths := by simp

/-- Of two lists one behind the other each keeps what stands among its diagnostics. -/
theorem append {front back frontAdded backAdded frontWhole backWhole : List Diagnostic}
    (first : WithLengths front frontAdded frontWhole)
    (second : WithLengths back backAdded backWhole) :
    WithLengths (front ++ back) (frontAdded ++ backAdded) (frontWhole ++ backWhole) where
  kept := first.kept.append second.kept
  nothingElse := by
    refine (first.nothingElse.append second.nothingElse).trans ?_
    rw [List.append_assoc, List.append_assoc]
    exact (List.perm_append_comm_assoc _ _ _).append_left front
  lengths := List.forall_mem_append.mpr ⟨first.lengths, second.lengths⟩

end WithLengths

/-- A tree gives the texts of some operands one behind the other, cut at the greatest length.  It
reports what the operands report by themselves, and that a text is too long when they are. -/
structure Joins (store : Store) (operands : List Expr) (tree : Expr) : Prop where
  domain : tree.domain? = some .character
  value : (tree.evaluate store).value =
    .character (String.ofList ((operands.flatMap (Expr.ownText store)).take Value.maxLength))
  reports : ∃ added,
    WithLengths (operands.flatMap fun operand => (operand.own store).diagnostics) added
      (tree.evaluate store).diagnostics ∧
    (added = [] ↔ (operands.flatMap (Expr.ownText store)).length ≤ Value.maxLength)

namespace Joins

variable {store : Store}

/-- An operand joins itself. -/
theorem operand {fragment : Expr} (isText : fragment.IsText) :
    Joins store [fragment] (fragment.resolve .character).value where
  domain := isText.domain?_resolve
  value := by
    have short := isText.length_ownText_le store
    rw [List.flatMap_singleton, List.take_of_length_le short]
    exact isText.value_own store
  reports := by
    have short := isText.length_ownText_le store
    simp only [List.flatMap_singleton]
    exact ⟨[], .refl _, by simpa using short⟩

/-- Parentheses around a tree join what the tree joins. -/
theorem group {operands : List Expr} {tree : Expr} (joins : Joins store operands tree)
    (range : Range) : Joins store operands (.resolved tree false range .character) := by
  have tagged : tree.domain?.getD .arithmetic = .character := by
    rw [joins.domain]
    rfl
  have same := Expr.evaluate_resolved_of_domain store tagged range
  constructor
  · rfl
  · rw [same, joins.value]
  · rw [same]
    exact joins.reports

/-- A period between two trees joins what both of them join. -/
theorem join {front last : List Expr} {left right : Expr} (leftJoins : Joins store front left)
    (rightJoins : Joins store last right) (range : Range) :
    Joins store (front ++ last) (.binary .concat left right range .character .character) := by
  have evaluated := Expr.evaluate_concat leftJoins.value rightJoins.value range
  obtain ⟨leftAdded, leftReports, leftShort⟩ := leftJoins.reports
  obtain ⟨rightAdded, rightReports, rightShort⟩ := rightJoins.reports
  simp only [List.length_append, List.length_take] at evaluated
  constructor
  · rfl
  · rw [evaluated, take_append_take, List.flatMap_append]
  · rw [evaluated, List.flatMap_append, List.flatMap_append, List.length_append]
    have both := leftReports.append rightReports
    -- Whether the node reports a length is a question of the two lengths only.
    generalize (front.flatMap (Expr.ownText store)).length = frontLength at *
    generalize (last.flatMap (Expr.ownText store)).length = lastLength at *
    split
    next fits =>
      refine ⟨leftAdded ++ rightAdded, by simpa using both, ?_⟩
      rw [List.append_eq_nil_iff, leftShort, rightShort]
      omega
    next long =>
      have whole (length : Nat) := both.append (.tooLong length range)
      simp only [List.append_nil] at whole
      refine ⟨_, whole _, ?_⟩
      rw [List.append_eq_nil_iff]
      constructor
      · intro nothing
        cases nothing.2
      · intro fits
        omega

end Joins

/-! ## Resolving joined texts -/

/-- A list between periods is read as a phrase whose tree joins the operands. -/
theorem Joined.exists_phrase {operands fragments : List Expr} (joined : Joined operands fragments)
    (store : Store) :
    ∃ phrase, Phrase.ofItems .character Expr.word? fragments = .ok phrase ∧
      Joins store operands (phrase.tree .character) ∧
      reportedBy (phrase.built ++ phrase.pending .character) =
        operands.flatMap fun operand => (operand.resolve .character).diagnostics := by
  have bounded : OperatorTable.character.Bounded := OperatorTable.bounded_ofDomain .character
  induction joined with
  | @operand fragment isText =>
      have formed := Phrase.ofItems_singleton bounded isText.notUnary
      exact ⟨.operand fragment, formed, .operand isText, rfl⟩
  | @group operands fragments range _ ih =>
      obtain ⟨inner, formedInner, joins, found⟩ := ih
      have whole : (Expr.unresolved fragments range).resolve .character = _ :=
        resolveWith_of_phrase formedInner range
      have formed : Phrase.ofItems .character Expr.word? [.unresolved fragments range] =
          .ok (.operand (.unresolved fragments range)) := Phrase.ofItems_singleton bounded rfl
      refine ⟨_, formed, ?_, ?_⟩
      · rw [Phrase.tree, whole]
        exact joins.group range
      · rw [← found]
        simp [Phrase.built, Phrase.pending, reportedBy, whole, OperatorTable.character]
  | @join front last fragments period item _ spelled _ ihFront ihLast =>
      obtain ⟨left, formedLeft, leftJoins, foundLeft⟩ := ihFront
      obtain ⟨right, formedRight, rightJoins, foundRight⟩ := ihLast
      obtain ⟨rfl, notUnary⟩ := Phrase.eq_operand_of_ofItems bounded formedRight
      have isBinary : period.word?.bind OperatorTable.character.binary? =
          some ⟨".", 2, .concat, false, .fixed .character, .character⟩ := by
        rw [spelled]
        rfl
      have formed := Phrase.ofItems_snoc OperatorTable.isPlain_character bounded formedLeft isBinary
        (by decide) notUnary
      refine ⟨_, formed, leftJoins.join rightJoins _, ?_⟩
      have domain (first second : Phrase Expr) : Phrase.binaryDomain
          ⟨".", 2, .concat, false, .fixed .character, .character⟩ first second = .character := rfl
      rw [List.flatMap_append, ← foundLeft, ← foundRight]
      simp [Phrase.built, Phrase.pending, domain]

/-- Any number of operands that are joined by periods and grouped by parentheses
in any way give their own texts one behind the other, cut at the greatest
length.  What each operand reports by itself is reported in the order of the
operands, and besides only that a text is too long, which is reported exactly
when the texts have more characters together than a text may have. -/
theorem calculate_joined (context : Context) {operands fragments : List Expr}
    (joined : Joined operands fragments) (range : Range) :
    let own := fun operand : Expr => operand.own context.store
    let text := operands.flatMap (Expr.ownText context.store)
    (∀ operand ∈ operands,
      (own operand).value = .character (String.ofList (operand.ownText context.store)) ∧
        (operand.ownText context.store).length ≤ Value.maxLength) ∧
    ∃ added evaluated,
      context.calculate .character (.unresolved fragments range) =
        (.character (String.ofList (text.take Value.maxLength)),
          { context with
            diagnostics := context.diagnostics ++
              (operands.flatMap fun operand => (operand.resolve .character).diagnostics) ++
                evaluated }) ∧
      WithLengths (operands.flatMap fun operand => (own operand).diagnostics) added evaluated ∧
      (added ≠ [] ↔ Value.maxLength < text.length) := by
  intro own text
  obtain ⟨phrase, formed, joins, found⟩ := joined.exists_phrase context.store
  have resolved : (Expr.unresolved fragments range).resolve .character =
      ⟨.resolved (phrase.tree .character) false range .character,
        operands.flatMap fun operand => (operand.resolve .character).diagnostics⟩ := by
    rw [← found]
    exact resolveWith_of_phrase formed range
  have value := (joins.group range).value
  obtain ⟨added, reports, short⟩ := (joins.group range).reports
  constructor
  · intro operand isOperand
    have isText := joined.isText isOperand
    exact ⟨isText.value_own _, isText.length_ownText_le _⟩
  · refine ⟨added, _, ?_, reports, ?_⟩
    · simp only [Context.calculate, Context.resolve, Context.evaluate, Context.record, resolved,
        value]
      rfl
    · rw [ne_eq, short, Nat.not_le]

/-- The fragments of `&X.('B'.&X)`. -/
def repeatedVariable : List Expr :=
  [.variableTerm ⟨.basic "X", [], .columns 0 2⟩ none, .symbol "." (.columns 2 3) none,
    .unresolved
      [.string ⟨none, [.text "B"], .whole⟩ (.columns 4 7) none, .symbol "." (.columns 7 8) none,
        .variableTerm ⟨.basic "X", [], .columns 8 10⟩ none]
      (.columns 3 11)]

/-- The operands of `&X.('B'.&X)`. -/
def repeatedVariableOperands : List Expr :=
  [.variableTerm ⟨.basic "X", [], .columns 0 2⟩ none,
    .string ⟨none, [.text "B"], .whole⟩ (.columns 4 7) none,
    .variableTerm ⟨.basic "X", [], .columns 8 10⟩ none]

/-- The text of a variable is repeated in `&X.('B'.&X)`. -/
theorem ownText_repeatedVariable {store : Store} {text : List Char}
    (held : store.value? "X" [] = some (.character (String.ofList text)))
    (fits : text.length ≤ Value.maxLength) :
    repeatedVariableOperands.flatMap (Expr.ownText store) = text ++ 'B' :: text := by
  have other : (Expr.string ⟨none, [.text "B"], .whole⟩ (.columns 4 7) none).own store =
      ⟨.character "B", []⟩ := by cbv
  simp [repeatedVariableOperands, Expr.ownText, Expr.own_variable held fits, other, Value.toText?]

/-- When `&X` has a text of the greatest length, nothing behind it is kept of `&X.('B'.&X)`, and
this is reported. -/
theorem calculate_joined_repeated_variable :
    let longest := List.replicate Value.maxLength 'A'
    let store := Store.empty.setVariable "X" (.character (String.ofList longest))
    Expr.read "&X.('B'.&X)" = .ok (.unresolved repeatedVariable (.columns 0 11)) ∧
      Joined repeatedVariableOperands repeatedVariable ∧
      ∃ added, added ≠ [] ∧
        (Context.ofStore store).calculate .character
            (.unresolved repeatedVariable (.columns 0 11)) =
          (.character (String.ofList longest), ⟨store, added⟩) := by
  intro longest store
  have read : Expr.read "&X.('B'.&X)" = .ok (.unresolved repeatedVariable (.columns 0 11)) := by cbv
  have joined : Joined repeatedVariableOperands repeatedVariable :=
    .join (.operand (Expr.isText_variableTerm _)) rfl
      (.group _ (.join (.operand (Expr.isText_string _ _)) rfl
        (.operand (Expr.isText_variableTerm _))))
  obtain ⟨_, added, evaluated, calculated, reports, long⟩ :=
    calculate_joined (Context.ofStore store) joined (.columns 0 11)
  have fits : longest.length = Value.maxLength := List.length_replicate
  have text : repeatedVariableOperands.flatMap (Expr.ownText store) = longest ++ 'B' :: longest :=
    ownText_repeatedVariable (Store.value?_setVariable_self .empty "X" _ []) fits.le
  have kept : (longest ++ 'B' :: longest).take Value.maxLength = longest := List.take_left' fits
  simp only [Context.ofStore, text, kept] at calculated long
  have reported : added ≠ [] := long.mpr (by simp [fits])
  refine ⟨read, joined, _, ?_, calculated⟩
  intro nothing
  have silent := (List.append_eq_nil_iff.mp nothing).2 ▸ reports.nothingElse
  exact reported (List.append_eq_nil_iff.mp (List.nil_perm.mp silent)).2

end ConditionalAssembly
