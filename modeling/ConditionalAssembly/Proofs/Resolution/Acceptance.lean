import ConditionalAssembly.Proofs.Resolution.Tree

/-!
# Which lists are expressions

A list is resolved without being replaced exactly when it has the form of the
grammar `Phrase.Formed`.  The grammar asks the operator table for words only,
so two tables that differ in priorities accept the same lists.

The priorities determine the tree.  Read in order, its operators and operands
are the fragments of the list, and among all trees with the same operators and
operands it is the one that is ordered.
-/

namespace ConditionalAssembly

/-! ## Tables without priorities -/

/-- An entry whose priority is forgotten. -/
def OperatorEntry.leveled {ω : Type} (entry : OperatorEntry ω) : OperatorEntry ω :=
  { entry with priority := 0 }

theorem OperatorEntry.notForm_leveled {ω : Type} (entry : OperatorEntry ω) :
    entry.leveled.notForm = entry.notForm :=
  rfl

/-- A line whose priority is forgotten. -/
def TableEntry.leveled : TableEntry → TableEntry
  | .unary entry => .unary entry.leveled
  | .binary entry => .binary entry.leveled

namespace OperatorTable

/-- A table whose priorities are forgotten. -/
def leveled (table : OperatorTable) : OperatorTable :=
  { table with entries := table.entries.map TableEntry.leveled }

theorem unary?_leveled (table : OperatorTable) (name : String) :
    table.leveled.unary? name = (table.unary? name).map OperatorEntry.leveled := by
  have kind : (TableEntry.unary? ∘ TableEntry.leveled) =
      fun line => line.unary?.map OperatorEntry.leveled := by
    funext line
    cases line <;> rfl
  rw [unary?, unary?, leveled, List.filterMap_map, kind, ← List.map_filterMap, List.find?_map]
  rfl

theorem binary?_leveled (table : OperatorTable) (name : String) :
    table.leveled.binary? name = (table.binary? name).map OperatorEntry.leveled := by
  have kind : (TableEntry.binary? ∘ TableEntry.leveled) =
      fun line => line.binary?.map OperatorEntry.leveled := by
    funext line
    cases line <;> rfl
  rw [binary?, binary?, leveled, List.filterMap_map, kind, ← List.map_filterMap, List.find?_map]
  rfl

variable {table other : OperatorTable} {name : String}

theorem unary?_eq_some_of_leveled (same : other.leveled = table.leveled)
    {entry : OperatorEntry UnaryOperator} (found : table.unary? name = some entry) :
    ∃ counterpart, other.unary? name = some counterpart := by
  have agree := other.unary?_leveled name
  rw [same, unary?_leveled, found] at agree
  rcases Option.map_eq_some_iff.mp agree.symm with ⟨counterpart, otherFound, _⟩
  exact ⟨counterpart, otherFound⟩

/-- Tables that differ in priorities have entries for the same binary operators,
which join with a `NOT` in both or in neither. -/
theorem binary?_eq_some_of_leveled (same : other.leveled = table.leveled)
    {entry : OperatorEntry BinaryOperator} (found : table.binary? name = some entry) :
    ∃ counterpart, other.binary? name = some counterpart ∧
      counterpart.notForm = entry.notForm := by
  have agree := other.binary?_leveled name
  rw [same, binary?_leveled, found] at agree
  rcases Option.map_eq_some_iff.mp agree.symm with ⟨counterpart, otherFound, leveled⟩
  rw [← entry.notForm_leveled, ← leveled]
  exact ⟨counterpart, otherFound, rfl⟩

theorem unary?_eq_none_of_leveled (same : other.leveled = table.leveled)
    (missing : table.unary? name = none) : other.unary? name = none := by
  cases found : other.unary? name with
  | none => rfl
  | some entry =>
      rcases unary?_eq_some_of_leveled same.symm found with ⟨counterpart, otherwise⟩
      cases missing.symm.trans otherwise

theorem binary?_eq_none_of_leveled (same : other.leveled = table.leveled)
    (missing : table.binary? name = none) : other.binary? name = none := by
  cases found : other.binary? name with
  | none => rfl
  | some entry =>
      rcases binary?_eq_some_of_leveled same.symm found with ⟨counterpart, otherwise, _⟩
      cases missing.symm.trans otherwise

end OperatorTable

/-- A list of the form of the grammar has it with other priorities as well. -/
theorem Phrase.Formed.of_leveled {α : Type} {table other : OperatorTable}
    {word? : α → Option String} {due : Phrase.Due} {items : List α}
    (same : other.leveled = table.leveled) (formed : Phrase.Formed table word? due items) :
    Phrase.Formed other word? due items := by
  induction formed with
  | unary spelled isUnary _ ih =>
      rcases OperatorTable.unary?_eq_some_of_leveled same isUnary with ⟨_, found⟩
      exact .unary spelled found ih
  | operand notUnary _ ih =>
      apply Phrase.Formed.operand _ ih
      intro word spelled
      exact OperatorTable.unary?_eq_none_of_leveled same (notUnary word spelled)
  | finished => exact .finished
  | joined spelled isBinary joins isNot isCombined _ ih =>
      rcases OperatorTable.binary?_eq_some_of_leveled same isBinary with ⟨_, found, notForm⟩
      rcases OperatorTable.binary?_eq_some_of_leveled same isCombined with ⟨_, foundCombined, _⟩
      exact .joined spelled found (notForm.trans joins) isNot foundCombined ih
  | binary spelled isBinary alone _ ih =>
      rcases OperatorTable.binary?_eq_some_of_leveled same isBinary with ⟨_, found, notForm⟩
      refine .binary spelled found ?_ ih
      intro joins isNot
      exact OperatorTable.binary?_eq_none_of_leveled same (alone (notForm.symm.trans joins) isNot)

/-! ## Lists that are accepted and lists that are replaced -/

variable {table : OperatorTable} {fragments : List Expr}

theorem isRecovered_eq_false_iff_ofItems (range : Range) :
    ((Expr.unresolved fragments range).resolveWith table).value.isRecovered = false ↔
      ∃ phrase, Phrase.ofItems table Expr.word? fragments = .ok phrase := by
  cases outcome : Phrase.ofItems table Expr.word? fragments with
  | ok phrase => simp [resolveWith_of_phrase outcome, Expr.isRecovered]
  | error failure => simp [resolveWith_of_failure outcome, Expr.isRecovered]

/-- A list is resolved without being replaced exactly when it has the form of the grammar. -/
theorem isRecovered_eq_false_iff_formed (bounded : table.Bounded) (range : Range) :
    ((Expr.unresolved fragments range).resolveWith table).value.isRecovered = false ↔
      Phrase.Formed table Expr.word? .operand fragments := by
  rw [isRecovered_eq_false_iff_ofItems, ← Phrase.scan_eq_ok_iff,
    Phrase.scan_operand_eq _ bounded]
  cases Phrase.ofItems table Expr.word? fragments <;> simp

/-- A list that is replaced has one fault of its own.  It is reported last, after
what was found in fragments of the list. -/
theorem exists_fault_of_isRecovered (bounded : table.Bounded) {range : Range}
    (recovered : ((Expr.unresolved fragments range).resolveWith table).value.isRecovered = true) :
    ∃ fault resolutions,
      Phrase.scan table Expr.word? .operand fragments = .error fault ∧
      (resolutions.map Prod.fst).Subperm fragments ∧
      (Expr.unresolved fragments range).resolveWith table =
        ⟨.resolved (.constant 0 range (some table.domain)) true range table.domain,
          reportedBy resolutions ++ [faultDiagnostic fragments range fault]⟩ := by
  have passed := Phrase.scan_operand_eq Expr.word? bounded fragments
  cases outcome : Phrase.ofItems table Expr.word? fragments with
  | ok phrase => simp [resolveWith_of_phrase outcome, Expr.isRecovered] at recovered
  | error failure =>
      rw [outcome] at passed
      have completed := (Phrase.reads_of_ofItems_eq_error bounded outcome).completed_sublist
      refine ⟨failure.fault, failure.completed.flatMap Phrase.built, passed, ?_,
        resolveWith_of_failure outcome range⟩
      exact (Phrase.flatMap_built_subperm failure.completed).trans completed.subperm

/-- Resolving a list succeeds exactly on the lists of the grammar, whatever the
priorities are.  Any other list is replaced by zero, and of itself it reports
only the fault at which a scan from left to right stops. -/
theorem resolve_list_accepts (table : OperatorTable) (bounded : table.Bounded)
    (fragments : List Expr) (range : Range) :
    let outcome := (Expr.unresolved fragments range).resolveWith table
    (outcome.value.isRecovered = false ↔ Phrase.Formed table Expr.word? .operand fragments) ∧
    (∀ other : OperatorTable, other.Bounded → other.leveled = table.leveled →
      ((Expr.unresolved fragments range).resolveWith other).value.isRecovered =
        outcome.value.isRecovered) ∧
    (outcome.value.isRecovered = true →
      ∃ fault resolutions,
        Phrase.scan table Expr.word? .operand fragments = .error fault ∧
        outcome.value = .resolved (.constant 0 range (some table.domain)) true range table.domain ∧
        outcome.diagnostics =
          reportedBy resolutions ++ [faultDiagnostic fragments range fault] ∧
        (resolutions.map Prod.fst).Subperm fragments) := by
  constructor
  · exact isRecovered_eq_false_iff_formed bounded range
  constructor
  · intro other otherBounded same
    rw [Bool.eq_iff_iff, ← not_iff_not, Bool.not_eq_true, Bool.not_eq_true,
      isRecovered_eq_false_iff_formed otherBounded, isRecovered_eq_false_iff_formed bounded]
    constructor
    · exact Phrase.Formed.of_leveled same.symm
    · exact Phrase.Formed.of_leveled same
  · intro recovered
    rcases exists_fault_of_isRecovered bounded recovered with ⟨fault, resolutions, passed, own, whole⟩
    exact ⟨fault, resolutions, passed, congrArg Reported.value whole,
      congrArg Reported.diagnostics whole, own⟩

/-- The fragments of `3 +`. -/
def danglingSum : List Expr :=
  [.constant 3 (.columns 0 1) none, .symbol "+" (.columns 2 3) none]

/-- In `3 +` an operand is missing in the column behind the operator. -/
theorem resolve_list_accepts_dangling :
    OperatorTable.arithmetic.Bounded ∧
      ¬ Phrase.Formed .arithmetic Expr.word? .operand danglingSum ∧
      ∃ resolutions,
        ((Expr.unresolved danglingSum (.columns 0 3)).resolveWith .arithmetic).diagnostics =
          reportedBy resolutions ++ [⟨.missingOperand, .columns 3 4⟩] ∧
        (resolutions.map Prod.fst).Subperm danglingSum := by
  have bounded := OperatorTable.bounded_ofDomain .arithmetic
  have recovered : ((Expr.unresolved danglingSum (.columns 0 3)).resolveWith
      .arithmetic).value.isRecovered = true := by cbv
  have stops : Phrase.scan .arithmetic Expr.word? .operand danglingSum =
      .error .missingOperand := by cbv
  obtain ⟨accepts, _, reports⟩ :=
    resolve_list_accepts .arithmetic bounded danglingSum (.columns 0 3)
  constructor
  · exact bounded
  constructor
  · intro formed
    cases (accepts.mpr formed).symm.trans recovered
  · rcases reports recovered with ⟨fault, resolutions, passed, _, reported, own⟩
    cases Except.error.inj (passed.symm.trans stops)
    exact ⟨resolutions, reported, own⟩

/-! ## The shape of a list that is accepted -/

/-- A list that is not replaced is resolved to the only ordered tree over the
operators and operands it is made of. -/
theorem resolve_list_shape {table : OperatorTable} (bounded : table.Bounded)
    {fragments : List Expr} {range : Range}
    (accepted : ((Expr.unresolved fragments range).resolveWith table).value.isRecovered = false) :
    ∃ phrase : Phrase Expr,
      ((Expr.unresolved fragments range).resolveWith table).value =
        .resolved (phrase.tree table.domain) false range table.domain ∧
      Phrase.scan table Expr.word? .operand fragments = .ok phrase.parts ∧
      phrase.parts.flatMap Phrase.Part.items = fragments ∧
      phrase.Ordered ∧
      ∀ other : Phrase Expr, other.parts = phrase.parts → other.Ordered → other = phrase := by
  rcases (isRecovered_eq_false_iff_ofItems range).mp accepted with ⟨phrase, formed⟩
  rcases (Phrase.ofItems_eq_ok_iff bounded).mp formed with ⟨passed, ordered⟩
  refine ⟨phrase, ?_, passed, Phrase.flatMap_items_of_scan passed, ordered, ?_⟩
  · rw [resolveWith_of_phrase formed]
  · intro other same otherOrdered
    exact (ordered.eq_of_parts_eq bounded passed otherOrdered same.symm).symm

/-- The fragments of `NOT A + B`. -/
def negatedSum : List Expr :=
  [.symbol "NOT" (.columns 0 3) none, .symbol "A" (.columns 4 5) none,
    .symbol "+" (.columns 6 7) none, .symbol "B" (.columns 8 9) none]

/-- In `NOT A + B` the sum is the operand of the looser `NOT`. -/
theorem resolve_list_shape_negated_sum :
    let outcome := (Expr.unresolved negatedSum (.columns 0 9)).resolveWith .arithmetic
    OperatorTable.arithmetic.Bounded ∧ outcome.value.isRecovered = false ∧
      ∃ phrase : Phrase Expr,
        outcome.value = .resolved (phrase.tree .arithmetic) false (.columns 0 9) .arithmetic ∧
        phrase.parts.flatMap Phrase.Part.items = negatedSum ∧ phrase.Ordered := by
  have bounded := OperatorTable.bounded_ofDomain .arithmetic
  have accepted : ((Expr.unresolved negatedSum (.columns 0 9)).resolveWith
      .arithmetic).value.isRecovered = false := by cbv
  rcases resolve_list_shape bounded accepted with ⟨phrase, whole, _, spelled, ordered, _⟩
  exact ⟨bounded, accepted, phrase, whole, spelled, ordered⟩

end ConditionalAssembly
