import ConditionalAssembly.Phrase

/-!
# Scanning a list from left to right

Whether a list of fragments is a phrase can be told without any priorities: an
operand may stand behind any number of unary operators, and a binary operator
must stand between two operands.  A scan passes the fragments once, from left
to right, and gives the operators and operands it met, or the fault it stopped
at.

The lists a scan passes are those of a grammar that mentions no scan.
-/

namespace ConditionalAssembly.Phrase

variable {α : Type} {table : OperatorTable} {word? : α → Option String}

/-- What must stand at the front of the rest of a list. -/
inductive Due where
  | operand
  | operator
  deriving DecidableEq

/-- An operator or an operand, with the fragments that spell it. -/
inductive Part (α : Type) where
  | operand (item : α)
  | unary (entry : OperatorEntry UnaryOperator) (word : α)
  | binary (entry : OperatorEntry BinaryOperator) (words : List α)

/-- The fragments that spell a part. -/
def Part.items : Part α → List α
  | .operand item => [item]
  | .unary _ word => [word]
  | .binary _ words => words

/-- The operators and operands of a phrase in the order of the source. -/
def parts : Phrase α → List (Part α)
  | .operand item => [.operand item]
  | .unary entry word inner => .unary entry word :: inner.parts
  | .binary entry words left right => left.parts ++ .binary entry words :: right.parts

/-- The parts of a phrase are spelled by its fragments. -/
theorem flatMap_items_parts (phrase : Phrase α) :
    phrase.parts.flatMap Part.items = phrase.items := by
  induction phrase with
  | operand item => rfl
  | unary entry word inner ih => simp [parts, items, Part.items, ih]
  | binary entry words left right ihLeft ihRight =>
      simp [parts, items, Part.items, ihLeft, ihRight]

theorem length_items_pos (phrase : Phrase α) : 0 < phrase.items.length := by
  induction phrase with
  | operand item => exact Nat.one_pos
  | unary entry word inner _ => exact Nat.succ_pos _
  | binary entry words left right ihLeft _ =>
      rw [items, List.append_assoc, List.length_append]
      exact Nat.add_pos_left ihLeft _

/-- Passes a list once, from left to right. -/
def scan (table : OperatorTable) (word? : α → Option String) (due : Due) (items : List α) :
    Except Fault (List (Part α)) :=
  match due, items with
  | .operand, [] => .error .missingOperand
  | .operand, item :: rest =>
      match (word? item).bind table.unary? with
      | some entry => (scan table word? .operand rest).map (.unary entry item :: ·)
      | none => (scan table word? .operator rest).map (.operand item :: ·)
  | .operator, [] => .ok []
  | .operator, item :: after =>
      match found : operatorAt? table word? (item :: after) with
      | none => .error .invalidOperator
      | some operator =>
          have _shorter := length_rest_lt_of_operatorAt? found
          (scan table word? .operand operator.rest).map
            (.binary operator.entry operator.words :: ·)
termination_by items.length
decreasing_by
  · exact Nat.lt_succ_self _
  · exact Nat.lt_succ_self _
  · exact _shorter

/-- Lists of the form `unary* operand (binary unary* operand)*`, read from where
an operand or an operator is due. -/
inductive Formed (table : OperatorTable) (word? : α → Option String) : Due → List α → Prop where
  | unary {item rest word entry} :
      word? item = some word → table.unary? word = some entry →
      Formed table word? .operand rest → Formed table word? .operand (item :: rest)
  | operand {item rest} :
      (∀ word, word? item = some word → table.unary? word = none) →
      Formed table word? .operator rest → Formed table word? .operand (item :: rest)
  | finished : Formed table word? .operator []
  /-- A word with a `NOT` form takes a `NOT` directly behind it along, if both
  together stand for an operator. -/
  | joined {item next rest word entry combined} :
      word? item = some word → table.binary? word = some entry → entry.notForm →
      word? next = some OperatorTable.notWord →
      table.binary? (word ++ " " ++ OperatorTable.notWord) = some combined →
      Formed table word? .operand rest → Formed table word? .operator (item :: next :: rest)
  | binary {item rest word entry} :
      word? item = some word → table.binary? word = some entry →
      (entry.notForm → rest.head?.bind word? = some OperatorTable.notWord →
        table.binary? (word ++ " " ++ OperatorTable.notWord) = none) →
      Formed table word? .operand rest → Formed table word? .operator (item :: rest)

theorem map_eq_ok_iff {ε γ δ : Type} {f : γ → δ} {result : Except ε γ} {value : δ} :
    result.map f = .ok value ↔ ∃ inner, result = .ok inner ∧ f inner = value := by
  cases result <;> simp [Except.map]

theorem map_map_result {ε γ δ η : Type} (result : Except ε γ) (f : γ → δ) (g : δ → η) :
    (result.map f).map g = result.map fun value => g (f value) := by
  cases result <;> rfl

/-! ## Scanning step by step -/

@[simp]
theorem scan_operand_nil : scan table word? .operand [] = .error .missingOperand := by
  rw [scan]

theorem scan_of_unary {item : α} {entry : OperatorEntry UnaryOperator}
    (isUnary : (word? item).bind table.unary? = some entry) (rest : List α) :
    scan table word? .operand (item :: rest) =
      (scan table word? .operand rest).map (.unary entry item :: ·) := by
  rw [scan, isUnary]

theorem scan_of_not_unary {item : α} (notUnary : (word? item).bind table.unary? = none)
    (rest : List α) :
    scan table word? .operand (item :: rest) =
      (scan table word? .operator rest).map (.operand item :: ·) := by
  rw [scan, notUnary]

@[simp]
theorem scan_operator_nil : scan table word? .operator [] = .ok [] := by
  rw [scan]

theorem scan_of_not_operator {item : α} {after : List α}
    (invalid : operatorAt? table word? (item :: after) = none) :
    scan table word? .operator (item :: after) = .error .invalidOperator := by
  rw [scan]
  split
  next => rfl
  next found => cases invalid.symm.trans found

theorem scan_of_operator {items : List α} {operator : OperatorAt α}
    (found : operatorAt? table word? items = some operator) :
    scan table word? .operator items =
      (scan table word? .operand operator.rest).map
        (.binary operator.entry operator.words :: ·) := by
  cases items with
  | nil => cases found
  | cons item after =>
      rw [scan]
      split
      next invalid => cases invalid.symm.trans found
      next other otherFound =>
        cases Option.some.inj (otherFound.symm.trans found)
        rfl

/-! ## Operators at the front of a list -/

/-- A word without a joined form is an operator by itself. -/
theorem operatorAt?_of_binary {item : α} {rest : List α} {word : String}
    {entry : OperatorEntry BinaryOperator} (spelled : word? item = some word)
    (isBinary : table.binary? word = some entry)
    (alone : entry.notForm → rest.head?.bind word? = some OperatorTable.notWord →
      table.binary? (word ++ " " ++ OperatorTable.notWord) = none) :
    operatorAt? table word? (item :: rest) = some ⟨entry, [item], rest⟩ := by
  have named := (OperatorTable.name_of_binary? isBinary).1
  cases rest with
  | nil => simp [operatorAt?, spelled, isBinary]
  | cons next after =>
      simp only [operatorAt?, spelled, Option.bind_some, isBinary, named]
      split
      next joins =>
        simp only [Bool.and_eq_true, beq_iff_eq] at joins
        rw [alone joins.1 joins.2]
      next => rfl

/-- A word with a joined form takes the `NOT` behind it along. -/
theorem operatorAt?_of_joined {item next : α} {word : String}
    {entry combined : OperatorEntry BinaryOperator} (spelled : word? item = some word)
    (isBinary : table.binary? word = some entry) (joins : entry.notForm)
    (isNot : word? next = some OperatorTable.notWord)
    (isCombined : table.binary? (word ++ " " ++ OperatorTable.notWord) = some combined)
    (after : List α) :
    operatorAt? table word? (item :: next :: after) = some ⟨combined, [item, next], after⟩ := by
  have named := (OperatorTable.name_of_binary? isBinary).1
  simp [operatorAt?, spelled, isBinary, named, joins, isNot, isCombined]

/-- An operator at the front of a list is a word by itself or a word with the
`NOT` behind it. -/
theorem operatorAt?_cases {items : List α} {operator : OperatorAt α}
    (found : operatorAt? table word? items = some operator) :
    ∃ item rest word entry, items = item :: rest ∧ word? item = some word ∧
      table.binary? word = some entry ∧
      (operator = ⟨entry, [item], rest⟩ ∧
          (entry.notForm → rest.head?.bind word? = some OperatorTable.notWord →
            table.binary? (word ++ " " ++ OperatorTable.notWord) = none) ∨
        ∃ next after combined, rest = next :: after ∧ entry.notForm ∧
          word? next = some OperatorTable.notWord ∧
          table.binary? (word ++ " " ++ OperatorTable.notWord) = some combined ∧
          operator = ⟨combined, [item, next], after⟩) := by
  unfold operatorAt? at found
  split at found
  next => cases found
  next item rest =>
    split at found
    next => cases found
    next entry isBinary =>
      cases found
      rcases Option.bind_eq_some_iff.mp isBinary with ⟨word, spelled, isBinary⟩
      refine ⟨item, [], word, entry, rfl, spelled, isBinary, .inl ⟨rfl, ?_⟩⟩
      intro _ isNot
      cases isNot
    next entry next after isBinary =>
      rcases Option.bind_eq_some_iff.mp isBinary with ⟨word, spelled, isBinary⟩
      rw [(OperatorTable.name_of_binary? isBinary).1] at found
      refine ⟨item, next :: after, word, entry, rfl, spelled, isBinary, ?_⟩
      split at found
      next joins =>
        simp only [Bool.and_eq_true, beq_iff_eq] at joins
        split at found
        next combined isCombined =>
          cases found
          exact .inr ⟨next, after, combined, rfl, joins.1, joins.2, isCombined, rfl⟩
        next missing =>
          cases found
          exact .inl ⟨rfl, fun _ _ => missing⟩
      next apart =>
        cases found
        refine .inl ⟨rfl, fun notForm isNot => absurd ?_ apart⟩
        simpa using ⟨notForm, isNot⟩

theorem binary?_of_operatorAt? {items : List α} {operator : OperatorAt α}
    (found : operatorAt? table word? items = some operator) :
    ∃ name, table.binary? name = some operator.entry := by
  obtain ⟨_, _, word, _, _, _, isBinary, ⟨rfl, _⟩ | ⟨_, _, _, _, _, _, isCombined, rfl⟩⟩ :=
    operatorAt?_cases found
  · exact ⟨word, isBinary⟩
  · exact ⟨_, isCombined⟩

theorem formed_of_operatorAt? {items : List α} {operator : OperatorAt α}
    (found : operatorAt? table word? items = some operator)
    (formed : Formed table word? .operand operator.rest) :
    Formed table word? .operator items := by
  rcases operatorAt?_cases found with ⟨_, _, _, _, rfl, spelled, isBinary, alone | joined⟩
  · rcases alone with ⟨rfl, alone⟩
    exact .binary spelled isBinary alone formed
  · rcases joined with ⟨_, _, _, rfl, joins, isNot, isCombined, rfl⟩
    exact .joined spelled isBinary joins isNot isCombined formed

/-! ## What a scan met first -/

/-- A scan that met an operand first met a fragment that is no unary operator. -/
theorem operand_of_scan {item first : α} {rest : List α} {parts : List (Part α)}
    (passed : scan table word? .operand (item :: rest) = .ok (.operand first :: parts)) :
    (word? item).bind table.unary? = none ∧ scan table word? .operator rest = .ok parts := by
  cases isUnary : (word? item).bind table.unary? with
  | some entry =>
      rw [scan_of_unary isUnary] at passed
      rcases map_eq_ok_iff.mp passed with ⟨more, _, same⟩
      cases same
  | none =>
      rw [scan_of_not_unary isUnary] at passed
      rcases map_eq_ok_iff.mp passed with ⟨more, passedRest, same⟩
      cases same
      exact ⟨rfl, passedRest⟩

/-- A scan that met a unary operator first met a fragment with this entry. -/
theorem unary_of_scan {item word : α} {rest : List α} {entry : OperatorEntry UnaryOperator}
    {parts : List (Part α)}
    (passed : scan table word? .operand (item :: rest) = .ok (.unary entry word :: parts)) :
    (word? item).bind table.unary? = some entry ∧
      scan table word? .operand rest = .ok parts := by
  cases isUnary : (word? item).bind table.unary? with
  | some found =>
      rw [scan_of_unary isUnary] at passed
      rcases map_eq_ok_iff.mp passed with ⟨more, passedRest, same⟩
      cases same
      exact ⟨rfl, passedRest⟩
  | none =>
      rw [scan_of_not_unary isUnary] at passed
      rcases map_eq_ok_iff.mp passed with ⟨more, _, same⟩
      cases same

/-- A scan that met a binary operator first met the fragments that spell it. -/
theorem binary_of_scan {words rest : List α} {entry : OperatorEntry BinaryOperator}
    {parts : List (Part α)}
    (passed : scan table word? .operator (words ++ rest) = .ok (.binary entry words :: parts)) :
    operatorAt? table word? (words ++ rest) = some ⟨entry, words, rest⟩ ∧
      scan table word? .operand rest = .ok parts := by
  cases found : operatorAt? table word? (words ++ rest) with
  | none =>
      cases split : words ++ rest with
      | nil => cases (split ▸ passed).symm.trans scan_operator_nil
      | cons item after =>
          rw [split] at found passed
          cases (scan_of_not_operator found).symm.trans passed
  | some operator =>
      rw [scan_of_operator found] at passed
      rcases map_eq_ok_iff.mp passed with ⟨more, passedRest, same⟩
      cases same
      have behind := List.append_cancel_left (items_of_operatorAt? found).1
      subst behind
      exact ⟨rfl, passedRest⟩

/-! ## The lists that are passed -/

/-- A list passed from some place on has the form of the grammar from there on. -/
theorem formed_of_scan {due : Due} {items : List α} {parts : List (Part α)}
    (passed : scan table word? due items = .ok parts) : Formed table word? due items := by
  fun_induction scan table word? due items generalizing parts with
  | case1 => cases passed
  | case2 item rest entry isUnary ih =>
      rcases Option.bind_eq_some_iff.mp isUnary with ⟨word, spelled, isUnary⟩
      rcases map_eq_ok_iff.mp passed with ⟨more, passedRest, rfl⟩
      exact .unary spelled isUnary (ih passedRest)
  | case3 item rest notUnary ih =>
      rcases map_eq_ok_iff.mp passed with ⟨more, passedRest, rfl⟩
      exact .operand (Option.bind_eq_none_iff.mp notUnary) (ih passedRest)
  | case4 => exact .finished
  | case5 => cases passed
  | case6 item after operator found _ ih =>
      rcases map_eq_ok_iff.mp passed with ⟨more, passedRest, rfl⟩
      exact formed_of_operatorAt? found (ih passedRest)

/-- What a scan met is spelled by the list it passed. -/
theorem flatMap_items_of_scan {due : Due} {items : List α} {parts : List (Part α)}
    (passed : scan table word? due items = .ok parts) : parts.flatMap Part.items = items := by
  fun_induction scan table word? due items generalizing parts with
  | case1 => cases passed
  | case2 item rest entry isUnary ih =>
      rcases map_eq_ok_iff.mp passed with ⟨more, passedRest, rfl⟩
      exact congrArg (item :: ·) (ih passedRest)
  | case3 item rest notUnary ih =>
      rcases map_eq_ok_iff.mp passed with ⟨more, passedRest, rfl⟩
      exact congrArg (item :: ·) (ih passedRest)
  | case4 =>
      cases passed
      rfl
  | case5 => cases passed
  | case6 item after operator found _ ih =>
      rcases map_eq_ok_iff.mp passed with ⟨more, passedRest, rfl⟩
      rw [List.flatMap_cons, ih passedRest]
      exact (items_of_operatorAt? found).1.symm

/-- An operand that a scan met is no unary operator. -/
theorem not_unary_of_scan {due : Due} {items : List α} {parts : List (Part α)}
    (passed : scan table word? due items = .ok parts) {met : α} (isMet : .operand met ∈ parts) :
    (word? met).bind table.unary? = none := by
  fun_induction scan table word? due items generalizing parts with
  | case1 => cases passed
  | case2 item rest entry isUnary ih =>
      rcases map_eq_ok_iff.mp passed with ⟨more, passedRest, rfl⟩
      exact ih passedRest ((List.mem_cons.mp isMet).resolve_left nofun)
  | case3 item rest notUnary ih =>
      rcases map_eq_ok_iff.mp passed with ⟨more, passedRest, rfl⟩
      rcases List.mem_cons.mp isMet with same | behind
      · cases same
        exact notUnary
      · exact ih passedRest behind
  | case4 =>
      cases passed
      cases isMet
  | case5 => cases passed
  | case6 item after operator found _ ih =>
      rcases map_eq_ok_iff.mp passed with ⟨more, passedRest, rfl⟩
      exact ih passedRest ((List.mem_cons.mp isMet).resolve_left nofun)

/-- A list of the form of the grammar is passed. -/
theorem Formed.exists_scan {due : Due} {items : List α}
    (formed : Formed table word? due items) :
    ∃ parts, scan table word? due items = .ok parts := by
  induction formed with
  | unary spelled isUnary _ ih =>
      rcases ih with ⟨parts, passed⟩
      exact ⟨_, by rw [scan_of_unary (by simpa [spelled] using isUnary), passed]; rfl⟩
  | operand notUnary _ ih =>
      rcases ih with ⟨parts, passed⟩
      have notUnary := Option.bind_eq_none_iff.mpr notUnary
      exact ⟨_, by rw [scan_of_not_unary notUnary, passed]; rfl⟩
  | finished => exact ⟨[], scan_operator_nil⟩
  | joined spelled isBinary joins isNot isCombined _ ih =>
      rcases ih with ⟨parts, passed⟩
      have found := operatorAt?_of_joined spelled isBinary joins isNot isCombined
      exact ⟨_, by rw [scan_of_operator (found _), passed]; rfl⟩
  | binary spelled isBinary alone _ ih =>
      rcases ih with ⟨parts, passed⟩
      have found := operatorAt?_of_binary spelled isBinary alone
      exact ⟨_, by rw [scan_of_operator found, passed]; rfl⟩

theorem scan_eq_ok_iff {due : Due} {items : List α} :
    (∃ parts, scan table word? due items = .ok parts) ↔ Formed table word? due items := by
  constructor
  · rintro ⟨parts, passed⟩
    exact formed_of_scan passed
  · exact Formed.exists_scan

end ConditionalAssembly.Phrase
