import ConditionalAssembly.Proofs.Phrase.Climbing

/-!
# Operators and operands of a phrase

A phrase takes its operators from the table it was read by, and each of them
is spelled by words.  Every fragment that is no word therefore stands as an
operand.
-/

namespace ConditionalAssembly.Phrase

variable {α : Type} {table : OperatorTable} {word? : α → Option String}

/-- The fragments of a phrase that stand as operands. -/
def operands : Phrase α → List α
  | .operand item => [item]
  | .unary _ _ inner => inner.operands
  | .binary _ _ left right => left.operands ++ right.operands

/-- The operators of a phrase are entries of the table and are spelled by words. -/
def Spelled (table : OperatorTable) (word? : α → Option String) : Phrase α → Prop
  | .operand _ => True
  | .unary entry word inner =>
      .unary entry ∈ table.entries ∧ (word? word).isSome ∧ inner.Spelled table word?
  | .binary entry words left right =>
      (.binary entry ∈ table.entries ∧ ∀ word ∈ words, (word? word).isSome) ∧
        left.Spelled table word? ∧ right.Spelled table word?

theorem mem_items_of_mem_operands {phrase : Phrase α} {item : α}
    (isOperand : item ∈ phrase.operands) : item ∈ phrase.items := by
  induction phrase with
  | operand other => exact isOperand
  | unary entry word inner ih => exact List.mem_cons_of_mem _ (ih isOperand)
  | binary entry words left right ihLeft ihRight =>
      rcases List.mem_append.mp isOperand with inLeft | inRight
      · exact List.mem_append_left _ (List.mem_append_left _ (ihLeft inLeft))
      · exact List.mem_append_right _ (ihRight inRight)

/-- A fragment that is no word stands as an operand. -/
theorem Spelled.mem_operands {phrase : Phrase α} (spelled : phrase.Spelled table word?) {item : α}
    (isItem : item ∈ phrase.items) (noWord : word? item = none) : item ∈ phrase.operands := by
  induction phrase with
  | operand other => exact isItem
  | unary entry word inner ih =>
      rcases List.mem_cons.mp isItem with rfl | inside
      · exact absurd spelled.2.1 (by simp [noWord])
      · exact ih spelled.2.2 inside
  | binary entry words left right ihLeft ihRight =>
      rcases spelled with ⟨⟨_, areWords⟩, leftSpelled, rightSpelled⟩
      rcases List.mem_append.mp isItem with before | inRight
      · rcases List.mem_append.mp before with inLeft | isWord
        · exact List.mem_append_left _ (ihLeft leftSpelled inLeft)
        · exact absurd (areWords item isWord) (by simp [noWord])
      · exact List.mem_append_right _ (ihRight rightSpelled inRight)

theorem operand_mem_parts {phrase : Phrase α} {item : α} (isOperand : item ∈ phrase.operands) :
    .operand item ∈ phrase.parts := by
  induction phrase with
  | operand other => simpa [operands, parts] using isOperand
  | unary entry word inner ih => exact List.mem_cons_of_mem _ (ih isOperand)
  | binary entry words left right ihLeft ihRight =>
      rcases List.mem_append.mp isOperand with inLeft | inRight
      · exact List.mem_append_left _ (ihLeft inLeft)
      · exact List.mem_append_right _ (List.mem_cons_of_mem _ (ihRight inRight))

theorem not_unary_of_mem_operands (bounded : table.Bounded) {items : List α} {phrase : Phrase α}
    (formed : ofItems table word? items = .ok phrase) {item : α}
    (isOperand : item ∈ phrase.operands) : (word? item).bind table.unary? = none := by
  have passed := scan_operand_eq word? bounded items
  rw [formed] at passed
  exact not_unary_of_scan passed (operand_mem_parts isOperand)

/-! ## Where operators come from -/

theorem unary_mem_of_bind {item : α} {entry : OperatorEntry UnaryOperator}
    (isUnary : (word? item).bind table.unary? = some entry) :
    .unary entry ∈ table.entries ∧ (word? item).isSome := by
  rcases Option.bind_eq_some_iff.mp isUnary with ⟨word, spelled, found⟩
  exact ⟨(OperatorTable.name_of_unary? found).2, Option.isSome_of_eq_some spelled⟩

/-- A binary operator has its entry in the table and is spelled by words. -/
theorem binary_mem_of_operatorAt? {items : List α} {operator : OperatorAt α}
    (found : operatorAt? table word? items = some operator) :
    .binary operator.entry ∈ table.entries ∧ ∀ word ∈ operator.words, (word? word).isSome := by
  rcases binary?_of_operatorAt? found with ⟨name, isBinary⟩
  constructor
  · exact (OperatorTable.name_of_binary? isBinary).2
  · obtain ⟨item, rest, word, entry, rfl, spelled, _, alone | joined⟩ := operatorAt?_cases found
    · rcases alone with ⟨rfl, _⟩
      simp [spelled]
    · rcases joined with ⟨next, after, combined, rfl, _, isNot, _, rfl⟩
      simp [spelled, isNot]

/-- A call that begins with a spelled phrase ends with one. -/
theorem Reads.spelled {before : Option (Phrase α)} {limit : Int} {items rest : List α}
    {phrase : Phrase α} (reads : Reads table word? before limit items (.ok (phrase, rest)))
    (start : ∀ left ∈ before, left.Spelled table word?) : phrase.Spelled table word? := by
  generalize same : Except.ok (phrase, rest) = result at reads
  induction reads generalizing phrase rest with
  | missing => cases same
  | operand _ _ ih =>
      apply ih _ same
      rintro _ ⟨⟩
      trivial
  | unaryFails _ _ _ => cases same
  | unary isUnary _ _ ihInner ihFurther =>
      rcases unary_mem_of_bind isUnary with ⟨isEntry, isWord⟩
      apply ihFurther _ same
      rintro _ ⟨⟩
      exact ⟨isEntry, isWord, ihInner (by simp) rfl⟩
  | finished =>
      cases same
      exact start _ rfl
  | invalid _ => cases same
  | stops _ _ =>
      cases same
      exact start _ rfl
  | rightFails _ _ _ _ => cases same
  | binary found _ _ _ ihRight ihFurther =>
      apply ihFurther _ same
      rintro _ ⟨⟩
      exact ⟨binary_mem_of_operatorAt? found, start _ rfl, ihRight (by simp) rfl⟩

theorem spelled_of_ofItems {items : List α} {phrase : Phrase α}
    (formed : ofItems table word? items = .ok phrase) : phrase.Spelled table word? :=
  (ofItems_eq_ok_iff_reads.mp formed).spelled nofun

end ConditionalAssembly.Phrase
