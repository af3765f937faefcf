import ConditionalAssembly.Proofs.Phrase.Precedence

/-!
# Replacing the fragments of a list

A phrase depends on its fragments only through their words.  Reading a list
whose fragments were replaced by others with the same words therefore groups
them in the same way.
-/

namespace ConditionalAssembly.Phrase

variable {α β : Type} {table : OperatorTable} {word? : β → Option String}

/-- A phrase whose fragments are replaced by others. -/
def map (f : α → β) : Phrase α → Phrase β
  | .operand item => .operand (f item)
  | .unary entry word inner => .unary entry (f word) (inner.map f)
  | .binary entry words left right => .binary entry (words.map f) (left.map f) (right.map f)

/-- A failure with the fragments of its phrases replaced. -/
def Failure.map (f : α → β) (failure : Failure α) : Failure β :=
  ⟨failure.fault, failure.completed.map (Phrase.map f)⟩

/-- The result of a call with its fragments replaced. -/
def mapResult (f : α → β) : Result α → Result β
  | .ok (phrase, rest) => .ok (phrase.map f, rest.map f)
  | .error failure => .error (failure.map f)

/-- An operator at the front of a list, and the list behind it, with other fragments. -/
def OperatorAt.map (f : α → β) (operator : OperatorAt α) : OperatorAt β :=
  ⟨operator.entry, operator.words.map f, operator.rest.map f⟩

/-- The operator at the front of a list is found by words alone. -/
theorem operatorAt?_map (f : α → β) (items : List α) :
    operatorAt? table word? (items.map f) =
      (operatorAt? table (word? ∘ f) items).map (OperatorAt.map f) := by
  cases items with
  | nil => rfl
  | cons item rest =>
      cases isBinary : (word? (f item)).bind table.binary? with
      | none => simp [operatorAt?, isBinary]
      | some entry =>
          cases rest with
          | nil => simp [operatorAt?, isBinary, OperatorAt.map]
          | cons next after =>
              simp only [operatorAt?, List.map_cons, isBinary, Function.comp_apply]
              split
              next => split <;> simp [OperatorAt.map]
              next => simp [OperatorAt.map]

theorem operatorAt?_map_of_found (f : α → β) {items : List α} {operator : OperatorAt α}
    (found : operatorAt? table (word? ∘ f) items = some operator) :
    operatorAt? table word? (items.map f) = some (operator.map f) := by
  rw [operatorAt?_map, found, Option.map_some]

/-- A call on replaced fragments goes on and ends as the call on the original ones. -/
theorem Reads.map (f : α → β) {before : Option (Phrase α)} {limit : Int} {items : List α}
    {result : Result α} (reads : Reads table (word? ∘ f) before limit items result) :
    Reads table word? (before.map (Phrase.map f)) limit (items.map f) (mapResult f result) := by
  induction reads with
  | missing => exact .missing
  | operand notUnary _ ih => exact .operand notUnary ih
  | unaryFails isUnary _ ih => exact .unaryFails isUnary ih
  | unary isUnary _ _ ihInner ihFurther => exact .unary isUnary ihInner ihFurther
  | finished => exact .finished
  | invalid notOperator =>
      apply Reads.invalid
      rw [← List.map_cons, operatorAt?_map, notOperator]
      rfl
  | stops found ends => exact .stops (operatorAt?_map_of_found f found) ends
  | rightFails found tighter _ ih =>
      exact .rightFails (operatorAt?_map_of_found f found) tighter ih
  | binary found tighter _ _ ihRight ihFurther =>
      exact .binary (operatorAt?_map_of_found f found) tighter ihRight ihFurther

/-- Reading a list with replaced fragments gives what reading the list gives, with its fragments
replaced. -/
theorem ofItems_map (f : α → β) (items : List α) :
    ofItems table word? (items.map f) =
      match ofItems table (word? ∘ f) items with
      | .ok phrase => .ok (phrase.map f)
      | .error failure => .error (failure.map f) := by
  have reads : Reads table (word? ∘ f) none OperatorTable.loosest items _ := reads_term _ items
  rw [(reads.map f).ofItems_eq, reads.ofItems_eq]
  rcases (term table (word? ∘ f) OperatorTable.loosest items).map Reading.pair with
    failure | ⟨phrase, rest⟩
  · rfl
  · cases rest <;> rfl

theorem ofItems_map_ok {f : α → β} {items : List α} {phrase : Phrase α}
    (formed : ofItems table (word? ∘ f) items = .ok phrase) :
    ofItems table word? (items.map f) = .ok (phrase.map f) := by
  rw [ofItems_map, formed]

theorem exists_ofItems_of_map {f : α → β} {items : List α} {mapped : Phrase β}
    (formed : ofItems table word? (items.map f) = .ok mapped) :
    ∃ phrase, ofItems table (word? ∘ f) items = .ok phrase := by
  rw [ofItems_map] at formed
  cases outcome : ofItems table (word? ∘ f) items with
  | error failure =>
      rw [outcome] at formed
      cases formed
  | ok phrase => exact ⟨phrase, rfl⟩

theorem ofItems_map_error {f : α → β} {items : List α} {failure : Failure α}
    (failed : ofItems table (word? ∘ f) items = .error failure) :
    ofItems table word? (items.map f) = .error (failure.map f) := by
  rw [ofItems_map, failed]

end ConditionalAssembly.Phrase
