import ConditionalAssembly.Proofs.Phrase.Scan

/-!
# Reading a phrase by priorities

Terms are read by nested calls that each end at the first operator they must
leave to the call around them.  The relation `Reads` lists what a call can do,
one rule for each way it goes on or ends, so what holds of all calls is shown
by induction on the rules.  A call begins either where an operand is due or
behind a left operand.

However the calls nest, together they pass the list as one scan does.
-/

namespace ConditionalAssembly.Phrase

variable {α : Type} {table : OperatorTable} {word? : α → Option String}

/-- What a call gives: a phrase and the fragments behind it, or a failure. -/
abbrev Result (α : Type) :=
  Except (Failure α) (Phrase α × List α)

/-- The phrase of a reading and what follows it. -/
def Reading.pair {bound : Nat} (reading : Reading α bound) : Phrase α × List α :=
  (reading.phrase, reading.rest)

/-- The calls that read a list under a limit, from an operand on (`none`) or
behind a left operand, each with its result. -/
inductive Reads (table : OperatorTable) (word? : α → Option String) :
    Option (Phrase α) → Int → List α → Result α → Prop where
  | missing {limit} : Reads table word? none limit [] (.error ⟨.missingOperand, []⟩)
  | operand {limit item rest result} :
      (word? item).bind table.unary? = none →
      Reads table word? (some (.operand item)) limit rest result →
      Reads table word? none limit (item :: rest) result
  | unaryFails {limit item rest entry failure} :
      (word? item).bind table.unary? = some entry →
      Reads table word? none entry.priority rest (.error failure) →
      Reads table word? none limit (item :: rest) (.error failure)
  | unary {limit item rest entry inner behind result} :
      (word? item).bind table.unary? = some entry →
      Reads table word? none entry.priority rest (.ok (inner, behind)) →
      Reads table word? (some (.unary entry item inner)) limit behind result →
      Reads table word? none limit (item :: rest) result
  | finished {limit left} : Reads table word? (some left) limit [] (.ok (left, []))
  | invalid {limit left item after} :
      operatorAt? table word? (item :: after) = none →
      Reads table word? (some left) limit (item :: after) (.error ⟨.invalidOperator, [left]⟩)
  | stops {limit left items operator} :
      operatorAt? table word? items = some operator → limit ≤ operator.entry.priority →
      Reads table word? (some left) limit items (.ok (left, items))
  | rightFails {limit left items operator failure} :
      operatorAt? table word? items = some operator → operator.entry.priority < limit →
      Reads table word? none operator.entry.priority operator.rest (.error failure) →
      Reads table word? (some left) limit items
        (.error { failure with completed := left :: failure.completed })
  | binary {limit left items operator right behind result} :
      operatorAt? table word? items = some operator → operator.entry.priority < limit →
      Reads table word? none operator.entry.priority operator.rest (.ok (right, behind)) →
      Reads table word? (some (.binary operator.entry operator.words left right)) limit behind
        result →
      Reads table word? (some left) limit items result

/-! ## The calls are those of the reader -/

mutual

/-- Reading a term is a call from where an operand is due. -/
theorem reads_term :
    ∀ (limit : Int) (items : List α),
      Reads table word? none limit items ((term table word? limit items).map Reading.pair)
  | limit, [] => by
      rw [term.eq_def]
      exact .missing
  | limit, item :: rest => by
      rw [term.eq_def]
      dsimp only
      split
      next notUnary => exact .operand notUnary (reads_climb limit (.operand item) rest)
      next entry isUnary =>
        have readInner := reads_term entry.priority rest
        split
        next failure failed =>
          rw [failed] at readInner
          exact .unaryFails isUnary readInner
        next inner succeeded =>
          rw [succeeded] at readInner
          have innerShorter := inner.length_rest_lt
          have readFurther := reads_climb limit (.unary entry item inner.phrase) inner.rest
          split
          next failure failed =>
            rw [failed] at readFurther
            exact .unary isUnary readInner readFurther
          next further succeededFurther =>
            rw [succeededFurther] at readFurther
            exact .unary isUnary readInner readFurther
termination_by _ items => items.length
decreasing_by
  · exact Nat.lt_succ_self _
  · exact Nat.lt_succ_self _
  · exact Nat.lt_succ_of_lt innerShorter

/-- Going on from a left operand is a call behind it. -/
theorem reads_climb :
    ∀ (limit : Int) (left : Phrase α) (items : List α),
      Reads table word? (some left) limit items
        ((climb table word? limit left items).map Reading.pair)
  | limit, left, [] => by
      rw [climb.eq_def]
      exact .finished
  | limit, left, item :: after => by
      rw [climb.eq_def]
      dsimp only
      split
      next invalid => exact .invalid invalid
      next operator found =>
        have shorter := length_rest_lt_of_operatorAt? found
        split
        next ends => exact .stops found ends
        next tighter =>
          have tighter := Int.not_le.mp tighter
          have readRight := reads_term operator.entry.priority operator.rest
          split
          next failure failed =>
            rw [failed] at readRight
            exact .rightFails found tighter readRight
          next right succeeded =>
            rw [succeeded] at readRight
            have shorterStill := Nat.lt_trans right.length_rest_lt shorter
            have readFurther := reads_climb limit
              (.binary operator.entry operator.words left right.phrase) right.rest
            split
            next failure failed =>
              rw [failed] at readFurther
              exact .binary found tighter readRight readFurther
            next further succeededFurther =>
              rw [succeededFurther] at readFurther
              exact .binary found tighter readRight readFurther
termination_by _ _ items => items.length
decreasing_by
  · exact shorter
  · exact shorterStill

end

/-- A call has only one result. -/
theorem Reads.unique {before : Option (Phrase α)} {limit : Int} {items : List α}
    {first second : Result α} (left : Reads table word? before limit items first)
    (right : Reads table word? before limit items second) : first = second := by
  induction left generalizing second with
  | missing =>
      cases right
      rfl
  | operand notUnary _ ih =>
      cases right with
      | operand _ further => exact ih further
      | unaryFails isUnary _ => cases notUnary.symm.trans isUnary
      | unary isUnary _ _ => cases notUnary.symm.trans isUnary
  | unaryFails isUnary _ ih =>
      cases right with
      | operand notUnary _ => cases isUnary.symm.trans notUnary
      | unaryFails same inner =>
          cases Option.some.inj (isUnary.symm.trans same)
          cases ih inner
          rfl
      | unary same inner _ =>
          cases Option.some.inj (isUnary.symm.trans same)
          cases ih inner
  | unary isUnary _ _ ihInner ihFurther =>
      cases right with
      | operand notUnary _ => cases isUnary.symm.trans notUnary
      | unaryFails same inner =>
          cases Option.some.inj (isUnary.symm.trans same)
          cases ihInner inner
      | unary same inner further =>
          cases Option.some.inj (isUnary.symm.trans same)
          cases ihInner inner
          exact ihFurther further
  | finished =>
      cases right with
      | finished => rfl
      | stops found _ => rfl
      | rightFails found _ _ => cases found
      | binary found _ _ _ => cases found
  | invalid notOperator =>
      cases right with
      | invalid _ => rfl
      | stops found _ => cases notOperator.symm.trans found
      | rightFails found _ _ => cases notOperator.symm.trans found
      | binary found _ _ _ => cases notOperator.symm.trans found
  | stops found ends =>
      cases right with
      | finished => rfl
      | invalid notOperator => cases found.symm.trans notOperator
      | stops _ _ => rfl
      | rightFails same tighter _ =>
          cases Option.some.inj (found.symm.trans same)
          exact absurd ends (Int.not_le.mpr tighter)
      | binary same tighter _ _ =>
          cases Option.some.inj (found.symm.trans same)
          exact absurd ends (Int.not_le.mpr tighter)
  | rightFails found tighter _ ih =>
      cases right with
      | finished => cases found
      | invalid notOperator => cases found.symm.trans notOperator
      | stops same ends =>
          cases Option.some.inj (found.symm.trans same)
          exact absurd ends (Int.not_le.mpr tighter)
      | rightFails same _ inner =>
          cases Option.some.inj (found.symm.trans same)
          cases ih inner
          rfl
      | binary same _ inner _ =>
          cases Option.some.inj (found.symm.trans same)
          cases ih inner
  | binary found tighter _ _ ihRight ihFurther =>
      cases right with
      | finished => cases found
      | invalid notOperator => cases found.symm.trans notOperator
      | stops same ends =>
          cases Option.some.inj (found.symm.trans same)
          exact absurd ends (Int.not_le.mpr tighter)
      | rightFails same _ inner =>
          cases Option.some.inj (found.symm.trans same)
          cases ihRight inner
      | binary same _ inner further =>
          cases Option.some.inj (found.symm.trans same)
          cases ihRight inner
          exact ihFurther further

/-- The calls from an operand on are exactly the readings of terms. -/
theorem reads_iff_term {limit : Int} {items : List α} {result : Result α} :
    Reads table word? none limit items result ↔
      (term table word? limit items).map Reading.pair = result := by
  constructor
  · exact (reads_term limit items).unique
  · rintro rfl
    exact reads_term limit items

/-! ## What the calls pass -/

/-- The scan of what a call begins with. -/
def scanFrom (table : OperatorTable) (word? : α → Option String) (items : List α) :
    Option (Phrase α) → Except Fault (List (Part α))
  | none => scan table word? .operand items
  | some left => (scan table word? .operator items).map (left.parts ++ ·)

/-- The scan that the result of a call stands for. -/
def scanOf (table : OperatorTable) (word? : α → Option String) :
    Result α → Except Fault (List (Part α))
  | .ok (phrase, rest) => (scan table word? .operator rest).map (phrase.parts ++ ·)
  | .error failure => .error failure.fault

/-- A call turns what was scanned into a phrase, so the scan of the whole stays. -/
theorem Reads.scan_eq {before : Option (Phrase α)} {limit : Int} {items : List α}
    {result : Result α} (reads : Reads table word? before limit items result) :
    scanFrom table word? items before = scanOf table word? result := by
  induction reads with
  | missing => exact scan_operand_nil
  | operand notUnary _ ih => rw [← ih, scanFrom, scan_of_not_unary notUnary]; rfl
  | unaryFails isUnary _ ih =>
      simp only [scanFrom, scanOf] at ih ⊢
      rw [scan_of_unary isUnary, ih]
      rfl
  | unary isUnary _ _ ihInner ihFurther =>
      simp only [scanFrom, scanOf] at ihInner
      rw [← ihFurther, scanFrom, scan_of_unary isUnary, ihInner, map_map_result]
      rfl
  | finished => rfl
  | invalid notOperator =>
      rw [scanFrom, scan_of_not_operator notOperator]
      rfl
  | stops => rfl
  | rightFails found _ _ ih =>
      simp only [scanFrom, scanOf] at ih ⊢
      rw [scan_of_operator found, ih]
      rfl
  | binary found _ _ _ ihRight ihFurther =>
      simp only [scanFrom, scanOf] at ihRight
      rw [← ihFurther, scanFrom, scan_of_operator found, ihRight, map_map_result, map_map_result]
      simp only [scanFrom, parts, List.append_assoc, List.cons_append]

/-- What a call leaves behind begins with an operator its limit excludes. -/
theorem Reads.limit_le {before : Option (Phrase α)} {limit : Int} {items rest : List α}
    {phrase : Phrase α} (reads : Reads table word? before limit items (.ok (phrase, rest)))
    (nonempty : rest ≠ []) :
    ∃ operator, operatorAt? table word? rest = some operator ∧
      limit ≤ operator.entry.priority := by
  generalize same : Except.ok (phrase, rest) = result at reads
  induction reads with
  | missing => cases same
  | operand _ _ ih => exact ih same
  | unaryFails _ _ _ => cases same
  | unary _ _ _ _ ih => exact ih same
  | finished =>
      cases same
      exact absurd rfl nonempty
  | invalid _ => cases same
  | stops found ends =>
      cases same
      exact ⟨_, found, ends⟩
  | rightFails _ _ _ _ => cases same
  | binary _ _ _ _ _ ih => exact ih same

/-! ## Whole lists -/

/-- What the outermost call makes of a whole list. -/
def wholeOf : Result α → Except (Failure α) (Phrase α)
  | .error failure => .error failure
  | .ok (phrase, []) => .ok phrase
  | .ok (phrase, _ :: _) => .error ⟨.invalidOperator, [phrase]⟩

theorem Reads.ofItems_eq {items : List α} {result : Result α}
    (reads : Reads table word? none OperatorTable.loosest items result) :
    ofItems table word? items = wholeOf result := by
  rw [← reads_iff_term.mp reads, ofItems]
  cases term table word? OperatorTable.loosest items with
  | error failure => rfl
  | ok reading =>
      rcases reading with ⟨phrase, rest, _⟩
      cases rest <;> rfl

/-- A list is a phrase exactly when the outermost call leaves nothing behind. -/
theorem ofItems_eq_ok_iff_reads {items : List α} {phrase : Phrase α} :
    ofItems table word? items = .ok phrase ↔
      Reads table word? none OperatorTable.loosest items (.ok (phrase, [])) := by
  rw [reads_iff_term, ofItems]
  cases term table word? OperatorTable.loosest items with
  | error failure => simp [Except.map]
  | ok reading => cases nothing : reading.rest <;> simp [Except.map, Reading.pair, nothing]

end ConditionalAssembly.Phrase

namespace ConditionalAssembly

/-- How loosely the operator of a line binds. -/
def TableEntry.priority : TableEntry → Int
  | .unary entry => entry.priority
  | .binary entry => entry.priority

/-- Every operator of the table binds tighter than a whole list. -/
def OperatorTable.Bounded (table : OperatorTable) : Prop :=
  ∀ entry ∈ table.entries, entry.priority < loosest

/-- The tables of the domains are bounded. -/
theorem OperatorTable.bounded_ofDomain (domain : Domain) : (ofDomain domain).Bounded := by
  unfold Bounded
  cases domain <;> decide

namespace Phrase

variable {α : Type} {table : OperatorTable} {word? : α → Option String}

theorem priority_lt_loosest (bounded : table.Bounded) {items : List α} {operator : OperatorAt α}
    (found : operatorAt? table word? items = some operator) :
    operator.entry.priority < OperatorTable.loosest := by
  rcases binary?_of_operatorAt? found with ⟨name, isBinary⟩
  exact bounded _ (OperatorTable.name_of_binary? isBinary).2

/-- A list that is no phrase makes the outermost call fail. -/
theorem reads_of_ofItems_eq_error (bounded : table.Bounded) {items : List α}
    {failure : Failure α} (failed : ofItems table word? items = .error failure) :
    Reads table word? none OperatorTable.loosest items (.error failure) := by
  have reads : Reads table word? none OperatorTable.loosest items _ := reads_term _ items
  unfold ofItems at failed
  split at failed
  next _ termFailed =>
    cases failed
    rwa [termFailed] at reads
  next reading termSucceeded =>
    rw [termSucceeded] at reads
    split at failed
    next => cases failed
    next item after leftOver =>
      have nonempty : reading.rest ≠ [] := leftOver ▸ List.cons_ne_nil item after
      rcases reads.limit_le nonempty with ⟨operator, found, loose⟩
      exact absurd (priority_lt_loosest bounded found) (Int.not_lt.mpr loose)

/-- Priorities have no say in which lists are phrases: reading a list agrees
with a scan of it. -/
theorem scan_operand_eq (word? : α → Option String) (bounded : table.Bounded) (items : List α) :
    scan table word? .operand items =
      match ofItems table word? items with
      | .ok phrase => .ok phrase.parts
      | .error failure => .error failure.fault := by
  cases formed : ofItems table word? items with
  | ok phrase =>
      have passed := (ofItems_eq_ok_iff_reads.mp formed).scan_eq
      simpa [scanFrom, scanOf, Except.map] using passed
  | error failure => exact (reads_of_ofItems_eq_error bounded formed).scan_eq

/-! ## What a failure keeps -/

theorem Reads.items_eq {limit : Int} {items rest : List α} {phrase : Phrase α}
    (reads : Reads table word? none limit items (.ok (phrase, rest))) :
    phrase.items ++ rest = items := by
  rcases map_eq_ok_iff.mp (reads_iff_term.mp reads) with ⟨reading, read, same⟩
  cases same
  exact items_of_term items read

/-- The phrases completed before a fault are spelled by fragments of the list,
each of them at most once. -/
theorem Reads.completed_sublist {before : Option (Phrase α)} {limit : Int} {items : List α}
    {failure : Failure α} (reads : Reads table word? before limit items (.error failure)) :
    (failure.completed.flatMap Phrase.items).Sublist
      ((before.map Phrase.items).getD [] ++ items) := by
  generalize same : Except.error failure = result at reads
  induction reads generalizing failure with
  | missing =>
      cases same
      exact List.nil_sublist _
  | operand _ _ ih => exact ih same
  | unaryFails _ _ ih =>
      cases same
      exact (ih rfl).cons _
  | unary _ readInner _ _ ih =>
      have completed := ih same
      rwa [← readInner.items_eq]
  | finished => cases same
  | invalid _ =>
      cases same
      simp
  | stops _ _ => cases same
  | rightFails found _ _ ih =>
      cases same
      rw [(items_of_operatorAt? found).1]
      exact ((ih rfl).trans (List.sublist_append_right _ _)).append_left _
  | binary found _ readRight _ _ ih =>
      have completed := ih same
      rw [(items_of_operatorAt? found).1, ← readRight.items_eq]
      simpa [Phrase.items] using completed

end Phrase

end ConditionalAssembly
