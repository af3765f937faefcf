import ConditionalAssembly.Proofs.Phrase.Climbing

/-!
# Trees that respect priorities

Which operator takes which operand is settled by three rules that look at a
tree only.  A binary operator on the right of another, or below a unary
operator, must bind tighter than it.  On the left of a binary operator every
operator that ends there must bind at least as tightly.

The phrase of a list is the tree over the scanned operators and operands that
keeps these rules, and there is never a second one.
-/

namespace ConditionalAssembly.Phrase

variable {α : Type} {table : OperatorTable} {word? : α → Option String}

/-- The priority of the binary operator at the root of a phrase, if it is one. -/
def rootPriority? : Phrase α → Option Int
  | .binary entry _ _ _ => some entry.priority
  | _ => none

/-- The priorities of the operators whose operand ends where the phrase ends,
from the root down. -/
def spine : Phrase α → List Int
  | .operand _ => []
  | .unary entry _ inner => entry.priority :: inner.spine
  | .binary entry _ _ right => entry.priority :: right.spine

/-- A binary operator at the root binds tighter than a limit. -/
def Below (phrase : Phrase α) (limit : Int) : Prop :=
  ∀ priority ∈ phrase.rootPriority?, priority < limit

/-- No operator at the end of the phrase binds more loosely than a limit. -/
def Within (phrase : Phrase α) (limit : Int) : Prop :=
  ∀ priority ∈ phrase.spine, priority ≤ limit

/-- The operators of a phrase are grouped as their priorities ask. -/
def Ordered : Phrase α → Prop
  | .operand _ => True
  | .unary entry _ inner => inner.Below entry.priority ∧ inner.Ordered
  | .binary entry _ left right =>
      (left.Within entry.priority ∧ left.Ordered) ∧ right.Below entry.priority ∧ right.Ordered

instance (phrase : Phrase α) (limit : Int) : Decidable (phrase.Below limit) :=
  inferInstanceAs (Decidable (∀ priority ∈ phrase.rootPriority?, priority < limit))

instance (phrase : Phrase α) (limit : Int) : Decidable (phrase.Within limit) :=
  inferInstanceAs (Decidable (∀ priority ∈ phrase.spine, priority ≤ limit))

/-- Whether a phrase is ordered is decided node by node. -/
instance decidableOrdered : (phrase : Phrase α) → Decidable phrase.Ordered
  | .operand _ => isTrue trivial
  | .unary _ _ inner =>
      have := decidableOrdered inner
      inferInstanceAs (Decidable (_ ∧ _))
  | .binary _ _ left right =>
      have := decidableOrdered left
      have := decidableOrdered right
      inferInstanceAs (Decidable ((_ ∧ _) ∧ _ ∧ _))

@[simp]
theorem below_operand (item : α) (limit : Int) : (operand item).Below limit := by
  simp [Below, rootPriority?]

@[simp]
theorem below_unary (entry : OperatorEntry UnaryOperator) (word : α) (inner : Phrase α)
    (limit : Int) : (unary entry word inner).Below limit := by
  simp [Below, rootPriority?]

@[simp]
theorem below_binary {entry : OperatorEntry BinaryOperator} {words : List α}
    {left right : Phrase α} {limit : Int} :
    (binary entry words left right).Below limit ↔ entry.priority < limit := by
  simp [Below, rootPriority?]

@[simp]
theorem within_operand (item : α) (limit : Int) : (operand item).Within limit := by
  simp [Within, spine]

@[simp]
theorem within_unary {entry : OperatorEntry UnaryOperator} {word : α} {inner : Phrase α}
    {limit : Int} :
    (unary entry word inner).Within limit ↔ entry.priority ≤ limit ∧ inner.Within limit := by
  simp [Within, spine]

@[simp]
theorem within_binary {entry : OperatorEntry BinaryOperator} {words : List α}
    {left right : Phrase α} {limit : Int} :
    (binary entry words left right).Within limit ↔
      entry.priority ≤ limit ∧ right.Within limit := by
  simp [Within, spine]

/-- A phrase with only tight operators at its end has only a tight root. -/
theorem Within.below {phrase : Phrase α} {priority limit : Int}
    (within : phrase.Within priority) (lt : priority < limit) : phrase.Below limit := by
  cases phrase with
  | operand item => exact below_operand item limit
  | unary entry word inner => exact below_unary entry word inner limit
  | binary entry words left right => exact below_binary.mpr (by simp at within; omega)

/-! ## What a call gives is ordered -/

/-- Whatever operator stands at the front of a list, a property holds of its priority. -/
def Ahead (table : OperatorTable) (word? : α → Option String) (items : List α)
    (property : Int → Prop) : Prop :=
  ∀ operator, operatorAt? table word? items = some operator → property operator.entry.priority

/-- The phrase may stand under a limit to the left of a list: neither an
operator inside it nor one ahead of it would have grouped otherwise. -/
structure Placed (table : OperatorTable) (word? : α → Option String) (phrase : Phrase α)
    (limit : Int) (items : List α) : Prop where
  ordered : phrase.Ordered
  below : phrase.Below limit
  within : Ahead table word? items phrase.Within

/-- A call that begins with a well placed phrase ends with one, in front of an
operator that the limit excludes. -/
theorem Reads.placed {before : Option (Phrase α)} {limit : Int} {items rest : List α}
    {phrase : Phrase α} (reads : Reads table word? before limit items (.ok (phrase, rest)))
    (start : ∀ left ∈ before, Placed table word? left limit items) :
    Placed table word? phrase limit rest ∧ Ahead table word? rest (limit ≤ ·) := by
  generalize same : Except.ok (phrase, rest) = result at reads
  induction reads generalizing phrase rest with
  | missing => cases same
  | @operand _ item _ _ _ _ ih =>
      apply ih _ same
      rintro _ ⟨⟩
      exact ⟨trivial, below_operand item _, fun _ _ => within_operand item _⟩
  | unaryFails _ _ _ => cases same
  | @unary _ item _ entry inner _ _ _ _ _ ihInner ihFurther =>
      rcases ihInner (by simp) rfl with ⟨innerPlaced, excluded⟩
      apply ihFurther _ same
      rintro _ ⟨⟩
      refine ⟨⟨innerPlaced.below, innerPlaced.ordered⟩, below_unary entry item inner _, ?_⟩
      intro operator found
      exact within_unary.mpr ⟨excluded operator found, innerPlaced.within operator found⟩
  | finished =>
      cases same
      exact ⟨start _ rfl, fun _ found => nomatch found⟩
  | invalid _ => cases same
  | stops found ends =>
      cases same
      constructor
      · exact start _ rfl
      · intro operator otherFound
        cases Option.some.inj (found.symm.trans otherFound)
        exact ends
  | rightFails _ _ _ _ => cases same
  | binary found tighter _ _ ihRight ihFurther =>
      have leftPlaced := start _ rfl
      rcases ihRight (by simp) rfl with ⟨rightPlaced, excluded⟩
      apply ihFurther _ same
      rintro _ ⟨⟩
      refine ⟨⟨⟨leftPlaced.within _ found, leftPlaced.ordered⟩, rightPlaced.below,
        rightPlaced.ordered⟩, below_binary.mpr tighter, ?_⟩
      intro operator nextFound
      exact within_binary.mpr ⟨excluded operator nextFound, rightPlaced.within operator nextFound⟩

/-! ## What is ordered is given by a call -/

theorem scan_operator_of_parts {phrase : Phrase α} {rest : List α} {tail : List (Part α)}
    (passed : scan table word? .operand (phrase.items ++ rest) = .ok (phrase.parts ++ tail)) :
    scan table word? .operator rest = .ok tail := by
  induction phrase generalizing rest tail with
  | operand item => exact (operand_of_scan passed).2
  | unary entry word inner ih => exact ih (unary_of_scan passed).2
  | binary entry words left right ihLeft ihRight =>
      simp only [items, parts, List.append_assoc, List.cons_append] at passed
      exact ihRight (binary_of_scan (ihLeft passed)).2

/-- Behind a phrase that stands well, a call may stop in front of what it excludes. -/
theorem Reads.of_excluded (phrase : Phrase α) {limit : Int} {rest : List α}
    {tail : List (Part α)} (passed : scan table word? .operator rest = .ok tail)
    (excluded : Ahead table word? rest (limit ≤ ·)) :
    Reads table word? (some phrase) limit rest (.ok (phrase, rest)) := by
  cases rest with
  | nil => exact .finished
  | cons item after =>
      cases found : operatorAt? table word? (item :: after) with
      | none => cases (scan_of_not_operator found).symm.trans passed
      | some operator => exact .stops found (excluded operator found)

/-- A call on a list that begins with a well placed phrase reads this phrase
first and then goes on behind it. -/
theorem Placed.reads {phrase : Phrase α} {limit : Int} {rest : List α} {tail : List (Part α)}
    (placed : Placed table word? phrase limit rest)
    (passed : scan table word? .operand (phrase.items ++ rest) = .ok (phrase.parts ++ tail))
    {result : Result α} (further : Reads table word? (some phrase) limit rest result) :
    Reads table word? none limit (phrase.items ++ rest) result := by
  induction phrase generalizing limit rest tail result with
  | operand item => exact .operand (operand_of_scan passed).1 further
  | unary entry word inner ih =>
      rcases unary_of_scan passed with ⟨isUnary, passedInner⟩
      have excluded : Ahead table word? rest (entry.priority ≤ ·) := fun operator found =>
        (within_unary.mp (placed.within operator found)).1
      have innerPlaced : Placed table word? inner entry.priority rest :=
        ⟨placed.ordered.2, placed.ordered.1, fun operator found =>
          (within_unary.mp (placed.within operator found)).2⟩
      have stops := Reads.of_excluded inner (scan_operator_of_parts passedInner) excluded
      exact .unary isUnary (ih innerPlaced passedInner stops) further
  | binary entry words left right ihLeft ihRight =>
      simp only [items, parts, List.append_assoc, List.cons_append] at passed ⊢
      rcases placed.ordered with ⟨⟨leftWithin, leftOrdered⟩, rightBelow, rightOrdered⟩
      have tighter := below_binary.mp placed.below
      rcases binary_of_scan (scan_operator_of_parts passed) with ⟨found, passedRight⟩
      have leftPlaced : Placed table word? left limit (words ++ (right.items ++ rest)) := by
        refine ⟨leftOrdered, leftWithin.below tighter, ?_⟩
        intro operator otherFound
        cases Option.some.inj (found.symm.trans otherFound)
        exact leftWithin
      have excluded : Ahead table word? rest (entry.priority ≤ ·) := fun operator found =>
        (within_binary.mp (placed.within operator found)).1
      have rightPlaced : Placed table word? right entry.priority rest :=
        ⟨rightOrdered, rightBelow, fun operator found =>
          (within_binary.mp (placed.within operator found)).2⟩
      have stops := Reads.of_excluded right (scan_operator_of_parts passedRight) excluded
      apply ihLeft leftPlaced passed
      exact .binary found tighter (ihRight rightPlaced passedRight stops) further

/-! ## The phrase of a list -/

/-- The operator at the root of a scanned phrase binds tighter than a whole list. -/
theorem below_loosest (bounded : table.Bounded) {phrase : Phrase α} {rest : List α}
    {tail : List (Part α)}
    (passed : scan table word? .operand (phrase.items ++ rest) = .ok (phrase.parts ++ tail)) :
    phrase.Below OperatorTable.loosest := by
  cases phrase with
  | operand item => exact below_operand item _
  | unary entry word inner => exact below_unary entry word inner _
  | binary entry words left right =>
      simp only [items, parts, List.append_assoc, List.cons_append] at passed
      rcases binary_of_scan (scan_operator_of_parts passed) with ⟨found, _⟩
      exact below_binary.mpr (priority_lt_loosest bounded found)

/-- The phrase of a list is the ordered tree over what a scan of the list meets. -/
theorem ofItems_eq_ok_iff (bounded : table.Bounded) {items : List α} {phrase : Phrase α} :
    ofItems table word? items = .ok phrase ↔
      scan table word? .operand items = .ok phrase.parts ∧ phrase.Ordered := by
  constructor
  · intro formed
    have passed := scan_operand_eq word? bounded items
    rw [formed] at passed
    have reads := ofItems_eq_ok_iff_reads.mp formed
    exact ⟨passed, (reads.placed (by simp)).1.ordered⟩
  · rintro ⟨passed, ordered⟩
    have spelled : phrase.items = items := by
      rw [← flatMap_items_parts, flatMap_items_of_scan passed]
    have passedAll : scan table word? .operand (phrase.items ++ []) = .ok (phrase.parts ++ []) := by
      rw [List.append_nil, List.append_nil, spelled, passed]
    have placed : Placed table word? phrase OperatorTable.loosest [] :=
      ⟨ordered, below_loosest bounded passedAll, fun _ found => nomatch found⟩
    have reads := placed.reads passedAll .finished
    rw [List.append_nil, spelled] at reads
    exact ofItems_eq_ok_iff_reads.mpr reads

/-- A single fragment that is no unary operator is a phrase by itself. -/
theorem ofItems_singleton (bounded : table.Bounded) {item : α}
    (notUnary : (word? item).bind table.unary? = none) :
    ofItems table word? [item] = .ok (.operand item) := by
  apply (ofItems_eq_ok_iff bounded).mpr
  rw [scan_of_not_unary notUnary, scan_operator_nil]
  exact ⟨rfl, trivial⟩

/-- A unary operator and an operand are a phrase. -/
theorem ofItems_unary (bounded : table.Bounded) {word item : α}
    {entry : OperatorEntry UnaryOperator} (isUnary : (word? word).bind table.unary? = some entry)
    (notUnary : (word? item).bind table.unary? = none) :
    ofItems table word? [word, item] = .ok (.unary entry word (.operand item)) := by
  apply (ofItems_eq_ok_iff bounded).mpr
  rw [scan_of_unary isUnary, scan_of_not_unary notUnary, scan_operator_nil]
  exact ⟨rfl, below_operand item _, trivial⟩

/-- Two operands with a binary operator between them are a phrase. -/
theorem ofItems_binary (bounded : table.Bounded) {left right : α} {words : List α}
    {entry : OperatorEntry BinaryOperator}
    (leftNotUnary : (word? left).bind table.unary? = none)
    (found : operatorAt? table word? (words ++ [right]) = some ⟨entry, words, [right]⟩)
    (rightNotUnary : (word? right).bind table.unary? = none) :
    ofItems table word? (left :: (words ++ [right])) =
      .ok (.binary entry words (.operand left) (.operand right)) := by
  apply (ofItems_eq_ok_iff bounded).mpr
  rw [scan_of_not_unary leftNotUnary, scan_of_operator found, scan_of_not_unary rightNotUnary,
    scan_operator_nil]
  exact ⟨rfl, ⟨within_operand left _, trivial⟩, below_operand right _, trivial⟩

/-- A single fragment is a phrase only as an operand. -/
theorem eq_operand_of_ofItems (bounded : table.Bounded) {item : α} {phrase : Phrase α}
    (formed : ofItems table word? [item] = .ok phrase) :
    phrase = .operand item ∧ (word? item).bind table.unary? = none := by
  have passed := ((ofItems_eq_ok_iff bounded).mp formed).1
  cases isUnary : (word? item).bind table.unary? with
  | some entry =>
      rw [scan_of_unary isUnary, scan_operand_nil] at passed
      cases passed
  | none =>
      exact ⟨Except.ok.inj (formed.symm.trans (ofItems_singleton bounded isUnary)), rfl⟩

theorem Ordered.eq_of_parts_eq (bounded : table.Bounded) {items : List α}
    {first second : Phrase α} (passed : scan table word? .operand items = .ok first.parts)
    (firstOrdered : first.Ordered) (secondOrdered : second.Ordered)
    (same : first.parts = second.parts) : first = second := by
  have formedFirst := (ofItems_eq_ok_iff bounded).mpr ⟨passed, firstOrdered⟩
  have formedSecond := (ofItems_eq_ok_iff bounded).mpr ⟨same ▸ passed, secondOrdered⟩
  exact Except.ok.inj (formedFirst.symm.trans formedSecond)

end ConditionalAssembly.Phrase
