import ConditionalAssembly.Proofs.Phrase.Cursor

/-!
# Calls in place

A call that reads a term in place finds the fragments behind its index where
they were, and in front of it what the terms before have left.  From there on
it does what `Phrase.term` does on the rest of the list.
-/

namespace ConditionalAssembly.Phrase

variable {α : Type}

/-- The slots that a phrase leaves: words stay where they are and operands are gone. -/
def remains : Phrase α → List (Option α)
  | .operand _ => [none]
  | .unary _ word inner => some word :: inner.remains
  | .binary _ words left right => left.remains ++ words.map some ++ right.remains

@[simp]
theorem length_remains (phrase : Phrase α) : phrase.remains.length = phrase.items.length := by
  induction phrase with
  | operand item => rfl
  | unary entry word inner ih => simp [remains, items, ih]
  | binary entry words left right ihLeft ihRight => simp [remains, items, ihLeft, ihRight]

namespace Cursor

/-! ## Where a call begins -/

/-- The call finds all fragments from its index on in place; the index may be just behind them. -/
structure Call.Ready (fragments : List α) (call : Call α) : Prop where
  index_le : call.index ≤ fragments.length
  length_slots : call.slots.length = fragments.length
  inPlace : call.slots.drop call.index = (fragments.drop call.index).map some

/-- The slots are those that were passed, then what is left of the phrase in front of the index, and
then the rest of the list in place. -/
structure Situated (fragments : List α) (passed slots : List (Option α)) (index : Nat)
    (before : Option (Phrase α)) (items : List α) : Prop where
  length_eq : fragments.length = index + items.length
  behind : fragments.drop passed.length = (before.map Phrase.items).getD [] ++ items
  slots_eq : slots = passed ++ ((before.map remains).getD [] ++ items.map some)
  index_eq : index = passed.length + ((before.map Phrase.items).getD []).length

namespace Situated

variable {fragments items : List α} {passed slots : List (Option α)} {index : Nat}

/-- Where an operand is due, only the rest of the list stands behind what was passed. -/
theorem term (situated : Situated fragments passed slots index none items) :
    slots = passed ++ items.map some ∧ index = passed.length :=
  ⟨situated.slots_eq, situated.index_eq⟩

/-- Behind a left operand, what is left of that stands between. -/
theorem climb {left : Phrase α}
    (situated : Situated fragments passed slots index (some left) items) :
    slots = passed ++ left.remains ++ items.map some ∧ index = (passed ++ left.remains).length := by
  constructor
  · simpa using situated.slots_eq
  · simpa using situated.index_eq

theorem ready (situated : Situated fragments passed slots index none items) (limit : Int) :
    Call.Ready fragments ⟨slots, index, limit⟩ := by
  rcases situated with ⟨length_eq, behind, rfl, rfl⟩
  constructor
  · simp [length_eq]
  · simp [length_eq]
  · simp [behind]

/-- Behind an operand that was taken. -/
theorem operand {item : α} (situated : Situated fragments passed slots index none (item :: items)) :
    Situated fragments passed (slots.set index none) (index + 1) (some (.operand item)) items := by
  rcases situated with ⟨length_eq, behind, rfl, rfl⟩
  constructor
  · simpa [Nat.add_assoc, Nat.add_comm 1] using length_eq
  · exact behind
  · simp [remains]
  · rfl

/-- Where the operand of a unary operator is due. -/
theorem inner {item : α} (situated : Situated fragments passed slots index none (item :: items)) :
    Situated fragments (passed ++ [some item]) slots (index + 1) none items := by
  rcases situated with ⟨length_eq, behind, rfl, rfl⟩
  constructor
  · simpa [Nat.add_assoc, Nat.add_comm 1] using length_eq
  · rw [List.length_append, ← List.drop_drop, behind]
    rfl
  · simp
  · simp

/-- Behind a unary operator and its operand. -/
theorem unary {item : α} {operand : Phrase α} (entry : OperatorEntry UnaryOperator)
    (situated : Situated fragments passed slots index none (item :: (operand.items ++ items))) :
    Situated fragments passed (passed ++ [some item] ++ operand.remains ++ items.map some)
      ((passed ++ [some item]).length + operand.items.length)
      (some (.unary entry item operand)) items := by
  rcases situated with ⟨length_eq, behind, rfl, rfl⟩
  constructor
  · simp at length_eq ⊢
    omega
  · exact behind
  · simp [remains]
  · simp [Phrase.items]
    omega

/-- Where the right operand of a binary operator is due. -/
theorem right {left : Phrase α} {words : List α}
    (situated : Situated fragments passed slots index (some left) (words ++ items)) :
    Situated fragments (passed ++ left.remains ++ words.map some) slots (index + words.length) none
      items := by
  rcases situated with ⟨length_eq, behind, rfl, rfl⟩
  constructor
  · simpa [Nat.add_assoc] using length_eq
  · rw [List.append_assoc, List.length_append, ← List.drop_drop, behind]
    simp
  · simp
  · simp [Nat.add_assoc]

/-- Behind a binary operator and its operands. -/
theorem binary {left right : Phrase α} {words : List α} (entry : OperatorEntry BinaryOperator)
    (situated :
      Situated fragments passed slots index (some left) (words ++ (right.items ++ items))) :
    Situated fragments passed
      (passed ++ left.remains ++ words.map some ++ right.remains ++ items.map some)
      ((passed ++ left.remains ++ words.map some).length + right.items.length)
      (some (.binary entry words left right)) items := by
  rcases situated with ⟨length_eq, behind, rfl, rfl⟩
  constructor
  · simp at length_eq ⊢
    omega
  · simpa [Phrase.items] using behind
  · simp [remains]
  · simp [Phrase.items]
    omega

end Situated

/-! ## How far calls go -/

/-- The calls are ready, and their indices increase from a lower bound on and stay below an upper
one, which leaves room for all of them. -/
structure Advance (fragments : List α) (lower upper : Nat) (calls : List (Call α)) : Prop where
  ready : ∀ call ∈ calls, call.Ready fragments
  increasing : (calls.map Call.index).Pairwise (· < ·)
  count : lower + calls.length ≤ upper
  above : ∀ call ∈ calls, lower ≤ call.index
  below : ∀ call ∈ calls, call.index < upper

namespace Advance

variable {fragments : List α} {lower middle upper : Nat} {first second : List (Call α)}

theorem nil (le : lower ≤ upper) : Advance fragments lower upper [] :=
  ⟨nofun, .nil, le, nofun, nofun⟩

theorem single {call : Call α} (ready : call.Ready fragments) :
    Advance fragments call.index (call.index + 1) [call] :=
  ⟨by simpa using ready, by simp, Nat.le_refl _, by simp, by simp⟩

theorem le (advance : Advance fragments lower upper first) : lower ≤ upper :=
  Nat.le_of_add_right_le advance.count

theorem append (front : Advance fragments lower middle first)
    (back : Advance fragments middle upper second) :
    Advance fragments lower upper (first ++ second) := by
  constructor
  · exact List.forall_mem_append.mpr ⟨front.ready, back.ready⟩
  · rw [List.map_append, List.pairwise_append]
    refine ⟨front.increasing, back.increasing, ?_⟩
    intro earlier isEarlier later isLater
    rcases List.mem_map.mp isEarlier with ⟨call, inFront, rfl⟩
    rcases List.mem_map.mp isLater with ⟨other, inBack, rfl⟩
    exact Nat.lt_of_lt_of_le (front.below call inFront) (back.above other inBack)
  · have frontCount := front.count
    have backCount := back.count
    rw [List.length_append]
    omega
  · exact List.forall_mem_append.mpr
      ⟨front.above, fun call inBack => Nat.le_trans front.le (back.above call inBack)⟩
  · exact List.forall_mem_append.mpr
      ⟨fun call inFront => Nat.lt_of_lt_of_le (front.below call inFront) back.le, back.below⟩

end Advance

/-! ## Runs that follow a reading -/

/-- Why reading in place halts at a fault of a list. -/
def haltAt (ranges : List Range) (length : Nat) : Fault → Halt
  | .missingOperand => .missingOperand length (anchor ranges length)
  | .invalidOperator => .invalidOperator

/-- What a run replies when the reading of the rest of a list has a result. -/
def replyOf (ranges : List Range) (length : Nat) (passed : List (Option α)) :
    Result α → Except Halt (Reply α)
  | .ok (phrase, rest) =>
      .ok (phrase, passed.length + phrase.items.length, passed ++ phrase.remains ++ rest.map some)
  | .error failure => .error (haltAt ranges length failure.fault)

/-- Below which index the calls of a run stay. -/
def stopOf (length : Nat) (passed : List (Option α)) : Result α → Nat
  | .ok (phrase, _) => passed.length + phrase.items.length
  | .error _ => length + 1

/-- The run that a call makes where an operand is due, or behind a left operand. -/
def runFrom (table : OperatorTable) (word? : α → Option String) (ranges : List Range)
    (slots : List (Option α)) (index : Nat) (limit : Int) : Option (Phrase α) → Run α (Reply α)
  | none => (term table word? ranges slots index limit).plain
  | some left => (climb table word? ranges slots left index limit).plain

variable {table : OperatorTable} {word? : α → Option String} {ranges : List Range}

/-- A run goes on and ends as the reading of the rest of a list. -/
structure Follows (fragments : List α) (ranges : List Range) (passed : List (Option α))
    (index : Nat) (result : Result α) (run : Run α (Reply α)) : Prop where
  outcome : run.outcome = replyOf ranges fragments.length passed result
  advance : Advance fragments index (stopOf fragments.length passed result) run.calls

namespace Follows

variable {fragments : List α} {passed before : List (Option α)} {lower middle : Nat}
  {result : Result α} {run : Run α (Reply α)}

theorem mono (le : lower ≤ middle) (follows : Follows fragments ranges passed middle result run) :
    Follows fragments ranges passed lower result run :=
  ⟨follows.outcome, (Advance.nil le).append follows.advance⟩

/-- Calls in front of a run that go on up to where the run begins. -/
theorem after {calls : List (Call α)} (front : Advance fragments lower middle calls)
    (follows : Follows fragments ranges passed middle result run) :
    Follows fragments ranges passed lower result (run.after calls) :=
  ⟨follows.outcome, front.append follows.advance⟩

/-- A run that goes on with what a run gave. -/
theorem andThen {behind : List α} {phrase : Phrase α} {next : Reply α → Run α (Reply α)}
    (first : Follows fragments ranges before lower (.ok (phrase, behind)) run)
    (second : Follows fragments ranges passed (before.length + phrase.items.length) result
      (next (phrase, before.length + phrase.items.length,
        before ++ phrase.remains ++ behind.map some))) :
    Follows fragments ranges passed lower result (run.andThen next) := by
  rcases run with ⟨calls, outcome⟩
  rcases first with ⟨same, advance⟩
  subst same
  exact second.after advance

/-- A run that has nothing to go on with. -/
theorem andThen_error {failure other : Failure α} (next : Reply α → Run α (Reply α))
    (first : Follows fragments ranges before lower (.error failure) run)
    (same : other.fault = failure.fault) :
    Follows fragments ranges passed lower (.error other) (run.andThen next) := by
  rcases run with ⟨calls, outcome⟩
  rcases first with ⟨halted, advance⟩
  subst halted
  exact ⟨congrArg (Except.error <| haltAt ranges fragments.length ·) same.symm, advance⟩

end Follows

end Cursor

open Cursor in
/-- What a call in place does is what the call on the rest of the list does. -/
theorem Reads.follows {table : OperatorTable} {word? : α → Option String}
    {before : Option (Phrase α)} {limit : Int} {items : List α} {result : Result α}
    (reads : Reads table word? before limit items result) (ranges : List Range) {fragments : List α}
    {passed slots : List (Option α)} {index : Nat}
    (situated : Situated fragments passed slots index before items) :
    Follows fragments ranges passed index result
      (runFrom table word? ranges slots index limit before) := by
  induction reads generalizing passed slots index with
  | @missing limit =>
      have ready := Advance.single (situated.ready limit)
      have atEnd : index = fragments.length := situated.length_eq.symm
      obtain ⟨rfl, rfl⟩ := situated.term
      rw [runFrom, plain_term_missing (by simp)]
      constructor
      · rw [replyOf, haltAt, atEnd]
      · rwa [stopOf, ← atEnd]
  | @operand limit item rest _ notUnary _ ih =>
      have ready := Advance.single (situated.ready limit)
      have further := ih situated.operand
      obtain ⟨rfl, rfl⟩ := situated.term
      rw [runFrom, plain_term_operand (slot_at_cursor passed item rest) notUnary]
      exact .after ready further
  | @unaryFails limit item rest _ _ isUnary _ ih =>
      have ready := Advance.single (situated.ready limit)
      have inner := ih situated.inner
      obtain ⟨rfl, rfl⟩ := situated.term
      rw [runFrom, plain_term_unary (slot_at_cursor passed item rest) isUnary]
      exact .after ready (inner.andThen_error _ rfl)
  | @unary limit item rest entry _ _ _ isUnary readInner _ ihInner ihFurther =>
      have ready := Advance.single (situated.ready limit)
      have inner := ihInner situated.inner
      have further := ihFurther (.unary entry (readInner.items_eq ▸ situated))
      obtain ⟨rfl, rfl⟩ := situated.term
      rw [runFrom, plain_term_unary (slot_at_cursor passed item rest) isUnary]
      exact .after ready (inner.andThen further)
  | @finished limit left =>
      obtain ⟨rfl, rfl⟩ := situated.climb
      rw [runFrom, plain_climb_end (by simp)]
      exact ⟨by simp [replyOf], .nil (by simp [stopOf])⟩
  | @invalid limit left item after notOperator =>
      have index_le : index ≤ fragments.length := situated.length_eq ▸ Nat.le_add_right _ _
      obtain ⟨rfl, rfl⟩ := situated.climb
      rw [runFrom, plain_climb_halt (by simp) (operatorAt_of_none _ notOperator)]
      exact ⟨rfl, .nil (Nat.le_succ_of_le index_le)⟩
  | @stops limit left items operator found ends =>
      have within : 0 < items.length := Nat.zero_lt_of_lt (length_rest_lt_of_operatorAt? found)
      obtain ⟨rfl, rfl⟩ := situated.climb
      rw [runFrom, plain_climb_stop (by simp [within]) (operatorAt_of_some _ found) ends]
      exact ⟨by simp [replyOf], .nil (by simp [stopOf])⟩
  | @rightFails limit left items operator failure found tighter _ ih =>
      have within : 0 < items.length := Nat.zero_lt_of_lt (length_rest_lt_of_operatorAt? found)
      have right := ih (Situated.right ((items_of_operatorAt? found).1 ▸ situated))
      obtain ⟨rfl, rfl⟩ := situated.climb
      rw [runFrom, plain_climb_binary (by simp [within]) (operatorAt_of_some _ found) rfl tighter]
      exact .mono (Nat.le_add_right _ _) (right.andThen_error _ rfl)
  | @binary limit left items operator right behind _ found tighter readRight _ ihRight ihFurther =>
      have within : 0 < items.length := Nat.zero_lt_of_lt (length_rest_lt_of_operatorAt? found)
      have spelled := (items_of_operatorAt? found).1
      have first := ihRight (Situated.right (spelled ▸ situated))
      have further := ihFurther (.binary operator.entry (readRight.items_eq ▸ spelled ▸ situated))
      obtain ⟨rfl, rfl⟩ := situated.climb
      rw [runFrom, plain_climb_binary (by simp [within]) (operatorAt_of_some _ found) rfl tighter]
      exact .mono (Nat.le_add_right _ _) (first.andThen further)

namespace Cursor

/-! ## How calls end -/

/-- Why a call halted, when a list has a fault. -/
inductive Halt.Fits (place : α → Range) (fragments : List α) : Halt → Fault → Prop where
  | emptyList : fragments = [] → Fits place fragments .emptyList .missingOperand
  /-- The operand is missed behind the last fragment. -/
  | missingOperand {last} :
      fragments.getLast? = some last →
      Fits place fragments (.missingOperand fragments.length (place last).pastEnd) .missingOperand
  | invalidOperator : Fits place fragments .invalidOperator .invalidOperator

/-- What a call that gives a phrase has done to the slots, and where it stopped. -/
structure Call.Gives (table : OperatorTable) (word? : α → Option String) (fragments : List α)
    (call : Call α) (phrase : Phrase α) (next : Nat) (slots : List (Option α)) : Prop where
  index_lt : call.index < next
  next_le : next ≤ fragments.length
  /-- The phrase is spelled by the fragments that the call went over. -/
  spelled : fragments.drop call.index = phrase.items ++ fragments.drop next
  /-- Of these only the operands were moved out, and nothing in front of them was touched. -/
  movedOut : slots.take next = call.slots.take call.index ++ phrase.remains
  inPlace : slots.drop next = (fragments.drop next).map some
  /-- The call stopped at an operator that binds no tighter than its limit, if not at the end. -/
  stopped : next < fragments.length →
    ∃ found, operatorAt table word? slots next = .ok found ∧ call.limit ≤ found.line.priority

/-- A call ends as the reading of the rest of the list has ended. -/
inductive Call.Ends (table : OperatorTable) (word? : α → Option String) (place : α → Range)
    (fragments : List α) (call : Call α) : Result α → Except Halt (Reply α) → Prop where
  | gives {phrase next slots} :
      call.Gives table word? fragments phrase next slots →
      Ends table word? place fragments call (.ok (phrase, fragments.drop next))
        (.ok (phrase, next, slots))
  | halts {failure halt} :
      halt.Fits place fragments failure.fault →
      Ends table word? place fragments call (.error failure) (.error halt)

/-- What the call ends with. -/
def Call.outcome (table : OperatorTable) (word? : α → Option String) (ranges : List Range)
    (call : Call α) : Except Halt (Reply α) :=
  (term table word? ranges call.slots call.index call.limit).plain.outcome

variable {table : OperatorTable} {word? : α → Option String} {place : α → Range}
  {fragments : List α}

theorem anchor_length {last : α} (isLast : fragments.getLast? = some last) :
    anchor (fragments.map place) fragments.length = (place last).pastEnd := by
  rw [List.getLast?_eq_getElem?] at isLast
  cases fragments with
  | nil => cases isLast
  | cons first rest =>
      have atLast : (first :: rest)[rest.length]? = some last := isLast
      rw [List.length_cons, anchor, List.getElem?_map, atLast]
      rfl

/-- A fault of a list that is not empty is met inside the list or directly behind it. -/
theorem fits_haltAt (nonempty : fragments ≠ []) (fault : Fault) :
    (haltAt (fragments.map place) fragments.length fault).Fits place fragments fault := by
  cases fault with
  | missingOperand =>
      have isLast := List.getLast?_eq_some_getLast nonempty
      rw [haltAt, anchor_length isLast]
      exact .missingOperand isLast
  | invalidOperator => exact .invalidOperator

theorem Call.Ready.situated {call : Call α} (ready : call.Ready fragments) :
    Situated fragments (call.slots.take call.index) call.slots call.index none
      (fragments.drop call.index) := by
  have within : call.index ≤ call.slots.length := ready.length_slots ▸ ready.index_le
  have length_passed : (call.slots.take call.index).length = call.index :=
    List.length_take_of_le within
  constructor
  · rw [List.length_drop, Nat.add_sub_cancel' ready.index_le]
  · rw [length_passed]
    rfl
  · rw [← ready.inPlace]
    exact (List.take_append_drop _ _).symm
  · rw [length_passed]
    rfl

/-- A call that finds the list in place follows the reading of the rest of it. -/
theorem Call.Ready.follows {call : Call α} (ready : call.Ready fragments) (table : OperatorTable)
    (word? : α → Option String) (ranges : List Range) :
    Follows fragments ranges (call.slots.take call.index) call.index
      ((Phrase.term table word? call.limit (fragments.drop call.index)).map Reading.pair)
      (term table word? ranges call.slots call.index call.limit).plain :=
  (reads_term _ _).follows ranges ready.situated

/-- What a call gives that finds the list in place. -/
theorem Situated.gives {passed slots : List (Option α)} {index : Nat} {limit : Int}
    {items rest : List α} {phrase : Phrase α}
    (situated : Situated fragments passed slots index none items)
    (reads : Reads table word? none limit items (.ok (phrase, rest))) :
    rest = fragments.drop (passed.length + phrase.items.length) ∧
      Call.Gives table word? fragments ⟨slots, index, limit⟩ phrase
        (passed.length + phrase.items.length) (passed ++ phrase.remains ++ rest.map some) := by
  have length_eq := situated.length_eq
  have spelled : fragments.drop passed.length = phrase.items ++ rest :=
    situated.behind.trans reads.items_eq.symm
  obtain ⟨rfl, rfl⟩ := situated.term
  have isRest : fragments.drop (passed.length + phrase.items.length) = rest := by
    rw [← List.drop_drop, spelled, List.drop_left]
  have length_next : (passed ++ phrase.remains).length = passed.length + phrase.items.length := by
    simp
  refine ⟨isRest.symm, ?_⟩
  constructor
  · exact Nat.lt_add_of_pos_right phrase.length_items_pos
  · have lengths := congrArg List.length reads.items_eq
    rw [List.length_append] at lengths
    rw [length_eq, ← lengths, ← Nat.add_assoc]
    exact Nat.le_add_right _ _
  · simpa [isRest] using spelled
  · rw [← length_next, List.take_left, List.take_left]
  · rw [isRest, ← length_next, List.drop_left]
  · intro further
    have nonempty : rest ≠ [] := by
      rw [← isRest]
      simpa using further
    rcases reads.limit_le nonempty with ⟨operator, found, loose⟩
    rw [← length_next]
    exact ⟨_, operatorAt_of_some _ found, loose⟩

/-- A call that finds the list in place ends as the reading of the rest of it. -/
theorem Call.Ready.ends {call : Call α} (ready : call.Ready fragments) (nonempty : fragments ≠ []) :
    call.Ends table word? place fragments
      ((Phrase.term table word? call.limit (fragments.drop call.index)).map Reading.pair)
      (call.outcome table word? (fragments.map place)) := by
  have same := (ready.follows table word? (fragments.map place)).outcome
  have reads : Reads table word? none call.limit (fragments.drop call.index) _ := reads_term _ _
  rw [Call.outcome, same]
  cases outcome : (Phrase.term table word? call.limit (fragments.drop call.index)).map
      Reading.pair with
  | error failure => exact .halts (fits_haltAt nonempty _)
  | ok answer =>
      rcases answer with ⟨phrase, rest⟩
      rw [outcome] at reads
      obtain ⟨isRest, gives⟩ := ready.situated.gives reads
      have ends : call.Ends table word? place fragments _ _ := .gives gives
      rwa [← isRest] at ends

/-! ## Whole lists -/

/-- Reading a list in place ends as reading it does. -/
inductive Agrees (place : α → Range) (fragments : List α) :
    Except (Failure α) (Phrase α) → Except Halt (Phrase α) → Prop where
  | phrase {phrase} : Agrees place fragments (.ok phrase) (.ok phrase)
  | fault {failure halt} :
      halt.Fits place fragments failure.fault →
      Agrees place fragments (.error failure) (.error halt)

/-- The call that reads a whole list. -/
def Call.outermost (fragments : List α) : Call α :=
  ⟨fragments.map some, 0, OperatorTable.loosest⟩

theorem ready_outermost : (Call.outermost fragments).Ready fragments :=
  ⟨Nat.zero_le _, List.length_map some, rfl⟩

/-- A list that has fragments is read by the outermost call first. -/
theorem head?_calls_ofItems (table : OperatorTable) (word? : α → Option String)
    (place : α → Range) (fragments : List α) :
    (ofItems table word? place fragments).calls.head? =
      fragments.head?.map fun _ => Call.outermost fragments := by
  cases fragments with
  | nil => rfl
  | cons item rest =>
      rw [ofItems_of_ne_nil (List.cons_ne_nil item rest)]
      exact Run.head?_calls_andThen head?_calls_term _

/-- The calls for a list agree with the reading of it by the outermost call. -/
theorem follows_whole (nonempty : fragments ≠ []) {result : Result α}
    (reads : Reads table word? none OperatorTable.loosest fragments result) :
    Advance fragments 0 (fragments.length + 1) (ofItems table word? place fragments).calls ∧
      Agrees place fragments (wholeOf result) (ofItems table word? place fragments).outcome := by
  have follows : Follows fragments _ [] 0 result
      (term table word? (fragments.map place) (fragments.map some) 0 OperatorTable.loosest).plain :=
    reads.follows (fragments.map place) ready_outermost.situated
  rw [ofItems_of_ne_nil nonempty]
  generalize (term table word? (fragments.map place) (fragments.map some) 0
    OperatorTable.loosest).plain = run at follows ⊢
  rcases run with ⟨calls, ended⟩
  rcases follows with ⟨same, advance⟩
  subst same
  rcases result with failure | ⟨phrase, behind⟩
  · exact ⟨advance, .fault (fits_haltAt nonempty _)⟩
  · have spelled := reads.items_eq
    subst spelled
    constructor
    · exact advance.append (.nil (by simp [stopOf]; omega))
    · cases behind with
      | nil => simpa [Run.andThen, Run.after, replyOf] using .phrase
      | cons item rest => simpa [Run.andThen, Run.after, replyOf] using .fault .invalidOperator

/-- The calls for a list go on from its front and are ready, and together they agree with reading
the list. -/
theorem ofItems_follows (table : OperatorTable) (word? : α → Option String) (place : α → Range)
    (fragments : List α) :
    Advance fragments 0 (fragments.length + 1) (ofItems table word? place fragments).calls ∧
      Agrees place fragments (Phrase.ofItems table word? fragments)
        (ofItems table word? place fragments).outcome := by
  have reads : Reads table word? none OperatorTable.loosest fragments _ := reads_term _ _
  rw [reads.ofItems_eq]
  by_cases empty : fragments = []
  · subst empty
    rw [Phrase.term.eq_def]
    exact ⟨.nil (Nat.zero_le _), .fault (.emptyList rfl)⟩
  · exact follows_whole empty reads

end Cursor

end ConditionalAssembly.Phrase
