import ConditionalAssembly.Proofs.Phrase.Climbing
import ConditionalAssembly.Range

/-!
# Reading a list in place

A list can also be read without being taken apart.  Its fragments stand in
slots and a cursor goes over them; an operand is moved out of its slot, and the
words of operators are left where they are.  Read this way a list could fail in
more ways than by a fault of its own: the cursor could point behind the list,
the slot under it could be empty, or the line found in the operator table could
be of the wrong kind.  All of these are told apart here, and every call is kept.

The lemmas on `term` and `climb` say what each way to go on does to a reading,
those on `operatorAt` that the cursor finds the operator at the front of the
rest of the list.
-/

namespace ConditionalAssembly

namespace TableEntry

/-- The line is for a unary operator. -/
def isUnary : TableEntry → Bool
  | .unary _ => true
  | .binary _ => false

/-- A following `NOT` joins with the word of the line into one operator. -/
def notForm : TableEntry → Bool
  | .unary entry => entry.notForm
  | .binary entry => entry.notForm

end TableEntry

/-- The first line of a table for an operator of one kind that a word stands for. -/
def OperatorTable.line? (table : OperatorTable) (unary : Bool) (name : String) :
    Option TableEntry :=
  table.entries.find? fun line => line.isUnary == unary && line.name = name

namespace OperatorTable

/-- The line found for a unary operator is that of its entry. -/
theorem line?_unary (table : OperatorTable) (name : String) :
    table.line? true name = (table.unary? name).map .unary := by
  rw [line?, unary?]
  induction table.entries with
  | nil => rfl
  | cons line rest ih =>
      cases line with
      | unary entry =>
          rw [List.find?_cons, List.filterMap_cons_some (by rfl), List.find?_cons, ih]
          by_cases same : entry.name = name <;> simp [TableEntry.isUnary, TableEntry.name, same]
      | binary entry => rw [List.find?_cons, List.filterMap_cons_none (by rfl), ← ih]; rfl

theorem bind_line?_unary (table : OperatorTable) (word : Option String) :
    word.bind (table.line? true) = (word.bind table.unary?).map .unary := by
  cases word with
  | none => rfl
  | some name => exact table.line?_unary name

/-- The line found for a binary operator is that of its entry. -/
theorem line?_binary (table : OperatorTable) (name : String) :
    table.line? false name = (table.binary? name).map .binary := by
  rw [line?, binary?]
  induction table.entries with
  | nil => rfl
  | cons line rest ih =>
      cases line with
      | unary entry => rw [List.find?_cons, List.filterMap_cons_none (by rfl), ← ih]; rfl
      | binary entry =>
          rw [List.find?_cons, List.filterMap_cons_some (by rfl), List.find?_cons, ih]
          by_cases same : entry.name = name <;> simp [TableEntry.isUnary, TableEntry.name, same]

theorem bind_line?_binary (table : OperatorTable) (word : Option String) :
    word.bind (table.line? false) = (word.bind table.binary?).map .binary := by
  cases word with
  | none => rfl
  | some name => exact table.line?_binary name

end OperatorTable

namespace Phrase.Cursor

/-- A call that reads a term: the slots as it finds them, the index at which the term is due and the
limit of its operators. -/
structure Call (α : Type) where
  slots : List (Option α)
  index : Nat
  limit : Int

/-- Why reading in place ends without a phrase. -/
inductive Halt where
  /-- The list has no fragments. -/
  | emptyList
  /-- An operand is due at an index behind the list, and is missed at a range. -/
  | missingOperand (index : Nat) (range : Range)
  /-- What stands at an index is no binary operator, or is one that no term takes. -/
  | invalidOperator
  /-- The fragment at an index has been moved out before. -/
  | emptySlot (index : Nat)
  /-- No slot has the index. -/
  | outOfRange (index : Nat)
  /-- The table line of an operator is of the other kind. -/
  | wrongKind
  deriving DecidableEq

/-- A binary operator found at an index: its line, the fragments that spell it and the index behind
them. -/
structure Found (α : Type) (index : Nat) where
  line : TableEntry
  words : List α
  next : Nat
  index_lt_next : index < next

/-- A phrase that was read, the index behind it and the slots it leaves. -/
structure Answer (α : Type) (bound length : Nat) where
  phrase : Phrase α
  next : Nat
  slots : List (Option α)
  bound_le_next : bound ≤ next
  length_slots : slots.length = length

/-- The calls that were made, in order, and how the reading ended. -/
structure Run (α β : Type) where
  calls : List (Call α)
  outcome : Except Halt β

variable {α : Type}

/-- An answer among as many slots meets every lower bound as well. -/
def Answer.widen {bound lower length whole : Nat} (le : lower ≤ bound) (same : length = whole)
    (answer : Answer α bound length) : Answer α lower whole :=
  ⟨answer.phrase, answer.next, answer.slots, Nat.le_trans le answer.bound_le_next,
    answer.length_slots.trans same⟩

/-- Goes on behind some calls. -/
def Run.behind {bound lower length whole : Nat} (calls : List (Call α)) (le : lower ≤ bound)
    (same : length = whole) (run : Run α (Answer α bound length)) : Run α (Answer α lower whole) :=
  ⟨calls ++ run.calls, run.outcome.map (Answer.widen le same)⟩

/-- Where an operand that is due at an index is missed: directly behind the fragment in front. -/
def anchor (ranges : List Range) (index : Nat) : Range :=
  match index with
  | 0 => .columns 0 0
  | prior + 1 => (ranges[prior]?.map Range.pastEnd).getD (.columns 0 0)

/-- The binary operator at an index. -/
def operatorAt (table : OperatorTable) (word? : α → Option String) (slots : List (Option α))
    (index : Nat) : Except Halt (Found α index) :=
  match slots[index]? with
  | none => .error (.outOfRange index)
  | some none => .error .invalidOperator
  | some (some item) =>
      match (word? item).bind (table.line? false) with
      | none => .error .invalidOperator
      | some line =>
          match slots[index + 1]? with
          | some (some following) =>
              if line.notForm && word? following == some OperatorTable.notWord then
                match table.line? false (line.name ++ " " ++ OperatorTable.notWord) with
                | some joined =>
                    .ok ⟨joined, [item, following], index + 2, Nat.lt_add_of_pos_right Nat.two_pos⟩
                | none => .ok ⟨line, [item], index + 1, Nat.lt_succ_self index⟩
              else .ok ⟨line, [item], index + 1, Nat.lt_succ_self index⟩
          | _ => .ok ⟨line, [item], index + 1, Nat.lt_succ_self index⟩

mutual

/-- Reads the term at an index, with the operators that bind tighter than a limit. -/
def term (table : OperatorTable) (word? : α → Option String) (ranges : List Range)
    (slots : List (Option α)) (index : Nat) (limit : Int) :
    Run α (Answer α (index + 1) slots.length) :=
  let call : Call α := ⟨slots, index, limit⟩
  if _within : index < slots.length then
    match slots[index]? with
    | none => ⟨[call], .error (.outOfRange index)⟩
    | some none => ⟨[call], .error (.emptySlot index)⟩
    | some (some item) =>
        match (word? item).bind (table.line? true) with
        | none =>
            (climb table word? ranges (slots.set index none) (.operand item) (index + 1)
              limit).behind [call] (Nat.le_refl _) List.length_set
        | some line =>
            match term table word? ranges slots (index + 1) line.priority with
            | ⟨calls, .error halt⟩ => ⟨call :: calls, .error halt⟩
            | ⟨calls, .ok inner⟩ =>
                match line.unary? with
                | none => ⟨call :: calls, .error .wrongKind⟩
                | some entry =>
                    have _further := inner.bound_le_next
                    have _same := inner.length_slots
                    (climb table word? ranges inner.slots (.unary entry item inner.phrase)
                      inner.next limit).behind (call :: calls)
                        (Nat.le_of_succ_le inner.bound_le_next) inner.length_slots
  else ⟨[call], .error (.missingOperand index (anchor ranges index))⟩
termination_by slots.length - index
decreasing_by
  · rw [List.length_set]
    omega
  · omega
  · omega

/-- Goes on behind a left operand with the operators that bind tighter than a limit. -/
def climb (table : OperatorTable) (word? : α → Option String) (ranges : List Range)
    (slots : List (Option α)) (left : Phrase α) (next : Nat) (limit : Int) :
    Run α (Answer α next slots.length) :=
  if _within : next < slots.length then
    match operatorAt table word? slots next with
    | .error halt => ⟨[], .error halt⟩
    | .ok found =>
        if limit ≤ found.line.priority then
          ⟨[], .ok ⟨left, next, slots, Nat.le_refl _, rfl⟩⟩
        else
          have _behind := found.index_lt_next
          match term table word? ranges slots found.next found.line.priority with
          | ⟨calls, .error halt⟩ => ⟨calls, .error halt⟩
          | ⟨calls, .ok right⟩ =>
              match found.line.binary? with
              | none => ⟨calls, .error .wrongKind⟩
              | some entry =>
                  have _further := right.bound_le_next
                  have _same := right.length_slots
                  (climb table word? ranges right.slots
                    (.binary entry found.words left right.phrase) right.next limit).behind calls
                    (Nat.le_of_lt (Nat.lt_trans found.index_lt_next right.bound_le_next))
                    right.length_slots
  else ⟨[], .ok ⟨left, next, slots, Nat.le_refl _, rfl⟩⟩
termination_by slots.length - next
decreasing_by
  · omega
  · omega

end

/-- Reads a list of fragments in place. -/
def ofItems (table : OperatorTable) (word? : α → Option String) (place : α → Range)
    (items : List α) : Run α (Phrase α) :=
  if items.isEmpty then ⟨[], .error .emptyList⟩
  else
    match term table word? (items.map place) (items.map some) 0 OperatorTable.loosest with
    | ⟨calls, .error halt⟩ => ⟨calls, .error halt⟩
    | ⟨calls, .ok answer⟩ =>
        if answer.next < items.length then ⟨calls, .error .invalidOperator⟩
        else ⟨calls, .ok answer.phrase⟩

/-! ## One step of a reading -/

/-- What a reading gives, without what is known about it. -/
abbrev Reply (α : Type) :=
  Phrase α × Nat × List (Option α)

def Answer.reply {bound length : Nat} (answer : Answer α bound length) : Reply α :=
  (answer.phrase, answer.next, answer.slots)

/-- A run whose outcome is only the reply. -/
def Run.plain {bound length : Nat} (run : Run α (Answer α bound length)) : Run α (Reply α) :=
  ⟨run.calls, run.outcome.map Answer.reply⟩

/-- A run behind some calls. -/
def Run.after {β : Type} (calls : List (Call α)) (run : Run α β) : Run α β :=
  ⟨calls ++ run.calls, run.outcome⟩

/-- Goes on with what a run gives, if it gives something. -/
def Run.andThen {β γ : Type} (run : Run α β) (next : β → Run α γ) : Run α γ :=
  match run with
  | ⟨calls, .error halt⟩ => ⟨calls, .error halt⟩
  | ⟨calls, .ok value⟩ => (next value).after calls

theorem Run.head?_calls_andThen {β γ : Type} {run : Run α β} {first : Call α}
    (starts : run.calls.head? = some first) (next : β → Run α γ) :
    (run.andThen next).calls.head? = some first := by
  rcases run with ⟨calls, halt | value⟩
  · exact starts
  · rw [andThen, after, List.head?_append, starts]
    rfl

theorem Run.plain_behind {bound lower length whole : Nat} (calls : List (Call α))
    (le : lower ≤ bound) (same : length = whole) (run : Run α (Answer α bound length)) :
    (run.behind calls le same).plain = run.plain.after calls := by
  rcases run with ⟨made, halt | answer⟩ <;> rfl

section

variable {table : OperatorTable} {word? : α → Option String} {ranges : List Range}
  {slots : List (Option α)} {limit : Int}

theorem plain_term_missing {index : Nat} (outside : ¬ index < slots.length) :
    (term table word? ranges slots index limit).plain =
      ⟨[⟨slots, index, limit⟩], .error (.missingOperand index (anchor ranges index))⟩ := by
  rw [term.eq_def, dif_neg outside]
  rfl

theorem plain_term_operand {index : Nat} {item : α} (held : slots[index]? = some (some item))
    (notUnary : (word? item).bind table.unary? = none) :
    (term table word? ranges slots index limit).plain =
      (climb table word? ranges (slots.set index none) (.operand item) (index + 1)
        limit).plain.after [⟨slots, index, limit⟩] := by
  have within : index < slots.length := (List.getElem?_eq_some_iff.mp held).1
  have noLine : (word? item).bind (table.line? true) = none := by
    rw [table.bind_line?_unary, notUnary, Option.map_none]
  rw [term.eq_def, dif_pos within]
  simp only [held, noLine, Run.plain_behind]

theorem plain_term_unary {index : Nat} {item : α} {entry : OperatorEntry UnaryOperator}
    (held : slots[index]? = some (some item))
    (isUnary : (word? item).bind table.unary? = some entry) :
    (term table word? ranges slots index limit).plain =
      ((term table word? ranges slots (index + 1) entry.priority).plain.andThen
        fun (inner, next, left) =>
          (climb table word? ranges left (.unary entry item inner) next limit).plain).after
        [⟨slots, index, limit⟩] := by
  have within : index < slots.length := (List.getElem?_eq_some_iff.mp held).1
  have isLine : (word? item).bind (table.line? true) = some (.unary entry) := by
    rw [table.bind_line?_unary, isUnary, Option.map_some]
  rw [term.eq_def, dif_pos within]
  simp only [held, isLine, TableEntry.priority]
  rcases term table word? ranges slots (index + 1) entry.priority with ⟨calls, halt | inner⟩
  · rfl
  · exact Run.plain_behind _ _ _ _

/-- A call comes before the calls it makes. -/
theorem head?_calls_term {index : Nat} :
    (term table word? ranges slots index limit).plain.calls.head? = some ⟨slots, index, limit⟩ := by
  rw [term.eq_def]
  dsimp only
  split
  next =>
    split
    next => rfl
    next => rfl
    next =>
      split
      next => rfl
      next =>
        split
        next => rfl
        next => split <;> rfl
  next => rfl

theorem plain_climb_end {left : Phrase α} {next : Nat} (outside : ¬ next < slots.length) :
    (climb table word? ranges slots left next limit).plain = ⟨[], .ok (left, next, slots)⟩ := by
  rw [climb.eq_def, dif_neg outside]
  rfl

theorem plain_climb_halt {left : Phrase α} {next : Nat} {halt : Halt}
    (within : next < slots.length) (failed : operatorAt table word? slots next = .error halt) :
    (climb table word? ranges slots left next limit).plain = ⟨[], .error halt⟩ := by
  rw [climb.eq_def, dif_pos within]
  simp only [failed]
  rfl

theorem plain_climb_stop {left : Phrase α} {next : Nat} {found : Found α next}
    (within : next < slots.length) (isOperator : operatorAt table word? slots next = .ok found)
    (ends : limit ≤ found.line.priority) :
    (climb table word? ranges slots left next limit).plain = ⟨[], .ok (left, next, slots)⟩ := by
  rw [climb.eq_def, dif_pos within]
  simp only [isOperator, ends, if_true]
  rfl

theorem plain_climb_binary {left : Phrase α} {next : Nat} {found : Found α next}
    {entry : OperatorEntry BinaryOperator}
    (within : next < slots.length) (isOperator : operatorAt table word? slots next = .ok found)
    (isBinary : found.line = .binary entry) (tighter : entry.priority < limit) :
    (climb table word? ranges slots left next limit).plain =
      (term table word? ranges slots found.next entry.priority).plain.andThen
        fun (right, behind, remaining) =>
          (climb table word? ranges remaining (.binary entry found.words left right) behind
            limit).plain := by
  rcases found with ⟨line, words, next', lt⟩
  subst isBinary
  rw [climb.eq_def, dif_pos within]
  simp only [isOperator, TableEntry.priority, Int.not_le.mpr tighter, if_false]
  rcases term table word? ranges slots next' entry.priority with ⟨calls, halt | right⟩
  · rfl
  · exact Run.plain_behind _ _ _ _

end

/-- A list that is not empty is read as a term, which must leave nothing behind. -/
theorem ofItems_of_ne_nil {table : OperatorTable} {word? : α → Option String} {place : α → Range}
    {items : List α} (nonempty : items ≠ []) :
    ofItems table word? place items =
      (term table word? (items.map place) (items.map some) 0 OperatorTable.loosest).plain.andThen
        fun (phrase, next, _) =>
          ⟨[], if next < items.length then .error .invalidOperator else .ok phrase⟩ := by
  rw [ofItems, if_neg (by simpa using nonempty)]
  rcases term table word? (items.map place) (items.map some) 0 OperatorTable.loosest with
    ⟨calls, halt | answer⟩
  · rfl
  · simp only [Run.plain, Run.andThen, Run.after, Except.map, Answer.reply, List.append_nil]
    split <;> rfl

/-! ## Operators among the slots -/

section

variable {table : OperatorTable} {word? : α → Option String} (passed : List (Option α))

theorem slot_at_cursor (item : α) (after : List α) :
    (passed ++ (item :: after).map some)[passed.length]? = some (some item) := by
  simp

theorem slot_behind_cursor (item : α) (after : List α) :
    (passed ++ (item :: after).map some)[passed.length + 1]? = after.head?.map some := by
  cases after <;> simp

/-- No operator is found where the rest of the list does not begin with one. -/
theorem operatorAt_of_none {item : α} {after : List α}
    (invalid : operatorAt? table word? (item :: after) = none) :
    operatorAt table word? (passed ++ (item :: after).map some) passed.length =
      .error .invalidOperator := by
  have notBinary : (word? item).bind table.binary? = none := by
    cases isBinary : (word? item).bind table.binary? with
    | none => rfl
    | some entry =>
        unfold operatorAt? at invalid
        cases after with
        | nil =>
            dsimp only at invalid
            rw [isBinary] at invalid
            cases invalid
        | cons next rest =>
            dsimp only at invalid
            rw [isBinary] at invalid
            dsimp only at invalid
            split at invalid
            next => split at invalid <;> cases invalid
            next => cases invalid
  simp only [operatorAt, slot_at_cursor, table.bind_line?_binary, notBinary, Option.map_none]

/-- The operator that the rest of the list begins with is found at the cursor. -/
theorem operatorAt_of_some {items : List α} {operator : OperatorAt α}
    (found : operatorAt? table word? items = some operator) :
    operatorAt table word? (passed ++ items.map some) passed.length =
      .ok ⟨.binary operator.entry, operator.words, passed.length + operator.words.length,
        Nat.lt_add_of_pos_right (List.length_pos_iff.mpr (items_of_operatorAt? found).2)⟩ := by
  rcases operatorAt?_cases found with
    ⟨item, rest, word, entry, rfl, spelled, isBinary, alone | joined⟩
  · rcases alone with ⟨rfl, alone⟩
    have isLine : (word? item).bind (table.line? false) = some (.binary entry) := by
      rw [table.bind_line?_binary, spelled, Option.bind_some, isBinary, Option.map_some]
    simp only [operatorAt, slot_at_cursor, isLine, slot_behind_cursor]
    cases rest with
    | nil => rfl
    | cons next after =>
        simp only [List.head?_cons, Option.map_some]
        split
        next joins =>
          simp only [TableEntry.notForm, Bool.and_eq_true, beq_iff_eq] at joins
          rw [TableEntry.name, (OperatorTable.name_of_binary? isBinary).1, table.line?_binary,
            alone joins.1 joins.2]
          rfl
        next => rfl
  · rcases joined with ⟨next, after, combined, rfl, joins, isNot, isCombined, rfl⟩
    have isLine : (word? item).bind (table.line? false) = some (.binary entry) := by
      rw [table.bind_line?_binary, spelled, Option.bind_some, isBinary, Option.map_some]
    have isJoined : table.line? false (word ++ " " ++ OperatorTable.notWord) =
        some (.binary combined) := by
      rw [table.line?_binary, isCombined, Option.map_some]
    simp only [operatorAt, slot_at_cursor, isLine, slot_behind_cursor, List.head?_cons,
      Option.map_some, TableEntry.notForm, joins, isNot, BEq.rfl, Bool.and_self, if_true,
      TableEntry.name, (OperatorTable.name_of_binary? isBinary).1, isJoined]
    rfl

end

end Phrase.Cursor

end ConditionalAssembly
