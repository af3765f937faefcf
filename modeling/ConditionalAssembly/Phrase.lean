import ConditionalAssembly.Operator.Table

/-!
# Phrases

A list of fragments is read as operators and operands, and the priorities of
the operators decide which operator takes which operand.  Reading only looks
at the words among the fragments, so it works for fragments of any type.

An operand may stand behind any number of unary operators.  An operator that
binds at least as loosely as the one whose operand is being read ends that
operand, so operators of equal priority group to the left.

The phrase of a list holds exactly the fragments of the list, in their order.
-/

namespace ConditionalAssembly

/-- Operators and operands in the grouping that the priorities give them. -/
inductive Phrase (α : Type) where
  | operand (item : α)
  /-- A unary operator, the fragment that spells it, and its operand. -/
  | unary (entry : OperatorEntry UnaryOperator) (word : α) (operand : Phrase α)
  /-- A binary operator, the fragments that spell it, and its operands. -/
  | binary (entry : OperatorEntry BinaryOperator) (words : List α) (left right : Phrase α)

namespace Phrase

variable {α : Type}

/-- The fragments of a phrase in the order of the source. -/
def items : Phrase α → List α
  | .operand item => [item]
  | .unary _ word inner => word :: inner.items
  | .binary _ words left right => left.items ++ words ++ right.items

/-- What keeps a list of fragments from being a phrase. -/
inductive Fault where
  /-- The list ends where an operand is due. -/
  | missingOperand
  /-- Something other than a binary operator stands where one is due. -/
  | invalidOperator
  deriving DecidableEq

/-- A fault, and the phrases completed before it was met, from left to right. -/
structure Failure (α : Type) where
  fault : Fault
  completed : List (Phrase α)

/-! ## Binary operators -/

/-- A binary operator at the front of a list, the fragments that spell it and
what follows them. -/
structure OperatorAt (α : Type) where
  entry : OperatorEntry BinaryOperator
  words : List α
  rest : List α

/-- The binary operator at the front of a list.  A word with a `NOT` form takes
a `NOT` directly behind it along. -/
def operatorAt? (table : OperatorTable) (word? : α → Option String) :
    List α → Option (OperatorAt α)
  | [] => none
  | item :: rest =>
      match (word? item).bind table.binary?, rest with
      | none, _ => none
      | some entry, [] => some ⟨entry, [item], []⟩
      | some entry, next :: after =>
          if entry.notForm && word? next == some OperatorTable.notWord then
            match table.binary? (entry.name ++ " " ++ OperatorTable.notWord) with
            | some joined => some ⟨joined, [item, next], after⟩
            | none => some ⟨entry, [item], next :: after⟩
          else some ⟨entry, [item], next :: after⟩

/-- An operator is spelled by the fragments at the front of the list. -/
theorem items_of_operatorAt? {table : OperatorTable} {word? : α → Option String} {items : List α}
    {found : OperatorAt α} (isOperator : operatorAt? table word? items = some found) :
    items = found.words ++ found.rest ∧ found.words ≠ [] := by
  unfold operatorAt? at isOperator
  split at isOperator
  next => exact nomatch isOperator
  next item rest =>
    split at isOperator
    next => exact nomatch isOperator
    next =>
      cases isOperator
      exact ⟨rfl, List.cons_ne_nil _ _⟩
    next =>
      split at isOperator
      next =>
        split at isOperator <;> cases isOperator <;> exact ⟨rfl, List.cons_ne_nil _ _⟩
      next =>
        cases isOperator
        exact ⟨rfl, List.cons_ne_nil _ _⟩

theorem length_rest_lt_of_operatorAt? {table : OperatorTable} {word? : α → Option String}
    {items : List α} {found : OperatorAt α}
    (isOperator : operatorAt? table word? items = some found) :
    found.rest.length < items.length := by
  obtain ⟨split, spelled⟩ := items_of_operatorAt? isOperator
  have positive := List.length_pos_iff.2 spelled
  rw [split, List.length_append]
  omega

/-! ## Terms -/

/-- A phrase read from a list and what follows it, fewer fragments than a bound. -/
structure Reading (α : Type) (bound : Nat) where
  phrase : Phrase α
  rest : List α
  length_rest_lt : rest.length < bound

/-- A reading meets every greater bound as well. -/
def Reading.widen {bound greater : Nat} (le : bound ≤ greater) (reading : Reading α bound) :
    Reading α greater :=
  ⟨reading.phrase, reading.rest, Nat.lt_of_lt_of_le reading.length_rest_lt le⟩

mutual

/-- Reads an operand and the operators that bind tighter than a limit. -/
def term (table : OperatorTable) (word? : α → Option String) (limit : Int) (items : List α) :
    Except (Failure α) (Reading α items.length) :=
  match items with
  | [] => .error ⟨.missingOperand, []⟩
  | item :: rest =>
      match (word? item).bind table.unary? with
      | none => climb table word? limit (.operand item) rest
      | some entry =>
          match term table word? entry.priority rest with
          | .error failure => .error failure
          | .ok inner =>
              have innerShorter := inner.length_rest_lt
              match climb table word? limit (.unary entry item inner.phrase) inner.rest with
              | .error failure => .error failure
              | .ok reading =>
                  .ok (reading.widen (Nat.succ_le_succ (Nat.le_of_lt innerShorter)))
termination_by items.length
decreasing_by
  · exact Nat.lt_succ_self _
  · exact Nat.lt_succ_self _
  · exact Nat.lt_succ_of_lt innerShorter

/-- Goes on from a left operand with the operators that bind tighter than a limit. -/
def climb (table : OperatorTable) (word? : α → Option String) (limit : Int) (left : Phrase α)
    (items : List α) : Except (Failure α) (Reading α (items.length + 1)) :=
  match items with
  | [] => .ok ⟨left, [], Nat.succ_pos _⟩
  | item :: after =>
      match found : operatorAt? table word? (item :: after) with
      | none => .error ⟨.invalidOperator, [left]⟩
      | some operator =>
          have shorter := length_rest_lt_of_operatorAt? found
          if limit ≤ operator.entry.priority then .ok ⟨left, item :: after, Nat.lt_succ_self _⟩
          else
            match term table word? operator.entry.priority operator.rest with
            | .error failure => .error { failure with completed := left :: failure.completed }
            | .ok right =>
                have shorterStill := Nat.lt_trans right.length_rest_lt shorter
                match climb table word? limit
                  (.binary operator.entry operator.words left right.phrase) right.rest with
                | .error failure => .error failure
                | .ok reading =>
                    .ok (reading.widen (Nat.succ_le_succ (Nat.le_of_lt shorterStill)))
termination_by items.length
decreasing_by
  · exact shorter
  · exact shorterStill

end

mutual

/-- A term and what follows it are the fragments it was read from. -/
theorem items_of_term {table : OperatorTable} {word? : α → Option String} {limit : Int} :
    ∀ (items : List α) {reading : Reading α items.length},
      term table word? limit items = .ok reading →
        reading.phrase.items ++ reading.rest = items
  | [], _, read => by
      rw [term.eq_def] at read
      exact nomatch read
  | item :: rest, _, read => by
      rw [term.eq_def] at read
      dsimp only at read
      split at read
      next => exact items_of_climb rest read
      next =>
        split at read
        next => exact nomatch read
        next inner readInner =>
          have innerShorter := inner.length_rest_lt
          split at read
          next => exact nomatch read
          next further readFurther =>
            cases read
            exact (items_of_climb inner.rest readFurther).trans
              (congrArg (item :: ·) (items_of_term rest readInner))
termination_by items => items.length
decreasing_by
  · exact Nat.lt_succ_self _
  · exact Nat.lt_succ_of_lt innerShorter
  · exact Nat.lt_succ_self _

/-- Going on from a left operand adds the fragments that follow to it. -/
theorem items_of_climb {table : OperatorTable} {word? : α → Option String} {limit : Int}
    {left : Phrase α} :
    ∀ (items : List α) {reading : Reading α (items.length + 1)},
      climb table word? limit left items = .ok reading →
        reading.phrase.items ++ reading.rest = left.items ++ items
  | [], _, read => by
      rw [climb.eq_def] at read
      cases read
      rfl
  | item :: after, _, read => by
      rw [climb.eq_def] at read
      dsimp only at read
      split at read
      next => exact nomatch read
      next operator found =>
        have shorter := length_rest_lt_of_operatorAt? found
        split at read
        next =>
          cases read
          rfl
        next =>
          split at read
          next => exact nomatch read
          next right readRight =>
            have shorterStill := Nat.lt_trans right.length_rest_lt shorter
            split at read
            next => exact nomatch read
            next further readFurther =>
              cases read
              refine (items_of_climb right.rest readFurther).trans ?_
              rw [(items_of_operatorAt? found).1, Phrase.items, List.append_assoc,
                List.append_assoc, items_of_term operator.rest readRight]
termination_by items => items.length
decreasing_by
  · exact shorterStill
  · exact shorter

end

/-- The phrase a list of fragments forms. -/
def ofItems (table : OperatorTable) (word? : α → Option String) (items : List α) :
    Except (Failure α) (Phrase α) :=
  match term table word? OperatorTable.loosest items with
  | .error failure => .error failure
  | .ok reading =>
      match reading.rest with
      | [] => .ok reading.phrase
      | _ :: _ => .error ⟨.invalidOperator, [reading.phrase]⟩

/-- The phrase of a list is made of exactly its fragments, in their order. -/
theorem items_of_ofItems {table : OperatorTable} {word? : α → Option String} {items : List α}
    {phrase : Phrase α} (formed : ofItems table word? items = .ok phrase) :
    phrase.items = items := by
  unfold ofItems at formed
  split at formed
  next => exact nomatch formed
  next reading read =>
    split at formed
    next nothing =>
      cases formed
      have whole := items_of_term items read
      rwa [nothing, List.append_nil] at whole
    next => exact nomatch formed

end Phrase

end ConditionalAssembly
