import Mathlib
import ConditionalAssembly.Store

/-!
# The history of a store

A store that was empty at first is made by a sequence of changes.  What it
answers about a name can be read off the changes of that name: a variable is
what its last change made it, its elements are those set since it was last set
as a whole, and a symbol is as it was last defined.
-/

namespace ConditionalAssembly.Store

/-- A change of a store. -/
inductive Change where
  | setVariable (name : String) (value : Value)
  | setElement (name : String) (index : Int32) (value : Value)
  | defineSymbol (name : String) (symbol : OrdinarySymbol)

namespace Change

/-- Makes a change. -/
def apply (store : Store) : Change → Store
  | .setVariable name value => store.setVariable name value
  | .setElement name index value => store.setElement name index value
  | .defineSymbol name symbol => store.defineSymbol name symbol

/-- The name that a change is about. -/
def name : Change → String
  | .setVariable name _ | .setElement name _ _ | .defineSymbol name _ => name

/-- The change sets a variable, as a whole or in one element. -/
def sets (name : String) : Change → Bool
  | .setVariable other _ | .setElement other _ _ => other = name
  | .defineSymbol _ _ => false

/-- The change sets a variable as a whole. -/
def replaces (name : String) : Change → Bool
  | .setVariable other _ => other = name
  | .setElement _ _ _ | .defineSymbol _ _ => false

/-- The element of a variable that a change sets, with its index. -/
def element? (name : String) : Change → Option (Int32 × Value)
  | .setElement other index value => if other = name then some (index, value) else none
  | .setVariable _ _ | .defineSymbol _ _ => none

/-- The definition that a change gives a symbol. -/
def definition? (name : String) : Change → Option OrdinarySymbol
  | .defineSymbol other symbol => if other = name then some symbol else none
  | .setVariable _ _ | .setElement _ _ _ => none

/-- What a variable holds after a change, given what it held before. -/
def heldAfter (name : String) (held : Option VariableValue) : Change → Option VariableValue
  | .setVariable other value => if other = name then some (.scalar value) else held
  | .setElement other index value =>
      if other = name then
        some (.array (((held.map VariableValue.elements).getD ∅).insert index value))
      else held
  | .defineSymbol _ _ => held

/-- A change that sets a variable sets it as a whole or in one element. -/
theorem cases_of_sets {name : String} {change : Change} (own : change.sets name) :
    (∃ value, change = .setVariable name value) ∨
      ∃ index value, change = .setElement name index value := by
  cases change with
  | setVariable other value =>
      cases of_decide_eq_true own
      exact .inl ⟨value, rfl⟩
  | setElement other index value =>
      cases of_decide_eq_true own
      exact .inr ⟨index, value, rfl⟩
  | defineSymbol _ _ => cases own

theorem heldAfter_of_not_sets {name : String} {change : Change} (other : change.sets name = false)
    (held : Option VariableValue) : change.heldAfter name held = held := by
  cases change with
  | setVariable _ _ => exact if_neg (of_decide_eq_false other)
  | setElement _ _ _ => exact if_neg (of_decide_eq_false other)
  | defineSymbol _ _ => rfl

theorem ignores_of_name_ne {name : String} (change : Change) (other : change.name ≠ name) :
    change.sets name = false ∧ change.definition? name = none := by
  cases change with
  | setVariable _ _ => exact ⟨decide_eq_false other, rfl⟩
  | setElement _ _ _ => exact ⟨decide_eq_false other, rfl⟩
  | defineSymbol _ _ => exact ⟨rfl, if_neg other⟩

theorem replaces_and_element?_of_not_sets {name : String} {change : Change}
    (other : change.sets name = false) :
    change.replaces name = false ∧ change.element? name = none := by
  cases change with
  | setVariable _ _ => exact ⟨other, rfl⟩
  | setElement _ _ _ => exact ⟨rfl, if_neg (of_decide_eq_false other)⟩
  | defineSymbol _ _ => exact ⟨rfl, rfl⟩

end Change

/-- The store that some changes make of the empty one. -/
def afterChanges (changes : List Change) : Store :=
  changes.foldl Change.apply .empty

/-! ## Reading a history -/

/-- The last change of a variable. -/
def lastChange? (name : String) (changes : List Change) : Option Change :=
  (changes.filter (Change.sets name)).getLast?

/-- The elements of a variable that were set since it was last set as a whole, in order. -/
def elementsSince (name : String) (changes : List Change) : List (Int32 × Value) :=
  (changes.rtakeWhile fun change => !change.replaces name).filterMap (Change.element? name)

/-- The last definition of a symbol. -/
def lastDefinition? (name : String) (changes : List Change) : Option OrdinarySymbol :=
  (changes.filterMap (Change.definition? name)).getLast?

section

variable (name : String) (changes : List Change) (change : Change)

theorem afterChanges_concat :
    afterChanges (changes ++ [change]) = change.apply (afterChanges changes) := by
  rw [afterChanges, List.foldl_append]
  rfl

theorem lastChange?_concat :
    lastChange? name (changes ++ [change]) =
      if change.sets name then some change else lastChange? name changes := by
  rw [lastChange?, List.filter_append]
  by_cases own : change.sets name <;> simp [own, lastChange?]

theorem elementsSince_concat :
    elementsSince name (changes ++ [change]) =
      if change.replaces name then []
      else elementsSince name changes ++ (change.element? name).toList := by
  rw [elementsSince, List.rtakeWhile_concat]
  by_cases whole : change.replaces name
  · simp [whole]
  · cases element : change.element? name <;> simp [whole, element, elementsSince]

theorem elementsSince_of_not_sets {name : String} {change : Change}
    (other : change.sets name = false) :
    elementsSince name (changes ++ [change]) = elementsSince name changes := by
  rcases Change.replaces_and_element?_of_not_sets other with ⟨notWhole, noElement⟩
  simp [elementsSince_concat, notWhole, noElement]

theorem lastDefinition?_concat :
    lastDefinition? name (changes ++ [change]) =
      (change.definition? name).or (lastDefinition? name changes) := by
  rw [lastDefinition?, List.filterMap_append, List.getLast?_append]
  cases defined : change.definition? name <;> simp [defined, lastDefinition?]

/-! ## What the tables hold -/

theorem variableTable_apply (store : Store) :
    (change.apply store).variableTable[name]? =
      change.heldAfter name store.variableTable[name]? := by
  cases change with
  | setVariable other value =>
      by_cases same : other = name <;>
        simp [Change.apply, Change.heldAfter, setVariable, Std.TreeMap.getElem?_insert, same]
  | setElement other index value =>
      by_cases same : other = name <;>
        simp [Change.apply, Change.heldAfter, setElement, Std.TreeMap.getElem?_insert, same]
  | defineSymbol _ _ => rfl

theorem symbolTable_apply (store : Store) :
    (change.apply store).symbolTable[name]? =
      (change.definition? name).or store.symbolTable[name]? := by
  cases change with
  | setVariable _ _ => rfl
  | setElement _ _ _ => rfl
  | defineSymbol other symbol =>
      by_cases same : other = name <;>
        simp [Change.apply, Change.definition?, defineSymbol, Std.TreeMap.getElem?_insert, same]

end

/-- A symbol is as it was last defined. -/
theorem symbolTable_afterChanges (name : String) (changes : List Change) :
    (afterChanges changes).symbolTable[name]? = lastDefinition? name changes := by
  induction changes using List.reverseRecOn with
  | nil => rfl
  | append_singleton changes change ih =>
      rw [afterChanges_concat, symbolTable_apply, lastDefinition?_concat, ih]

/-- What a variable holds agrees with its history. -/
structure Recalls (name : String) (changes : List Change) (held : Option VariableValue) : Prop where
  unset : held = none ↔ lastChange? name changes = none
  whole (value : Value) :
    held = some (.scalar value) ↔ lastChange? name changes = some (.setVariable name value)
  elements (index : Int32) :
    ((held.map VariableValue.elements).getD ∅)[index]? =
      (elementsSince name changes).reverse.lookup index

/-- A change keeps the agreement. -/
theorem Recalls.concat {name : String} {changes : List Change} {held : Option VariableValue}
    (recalls : Recalls name changes held) (change : Change) :
    Recalls name (changes ++ [change]) (change.heldAfter name held) := by
  by_cases own : change.sets name
  · rcases Change.cases_of_sets own with ⟨value, rfl⟩ | ⟨index, value, rfl⟩
    · constructor <;>
        simp [Change.heldAfter, lastChange?_concat, elementsSince_concat, own, Change.replaces,
          VariableValue.elements]
    · constructor
      · simp [Change.heldAfter, lastChange?_concat, own]
      · simp [Change.heldAfter, lastChange?_concat, own]
      · intro asked
        by_cases same : asked = index
        · simp [Change.heldAfter, elementsSince_concat, Change.replaces, Change.element?,
            VariableValue.elements, same]
        · have other : (asked == index) = false := beq_false_of_ne same
          simp [Change.heldAfter, elementsSince_concat, Change.replaces, Change.element?,
            VariableValue.elements, Std.TreeMap.getElem?_insert, recalls.elements, Ne.symm same,
            List.lookup_cons, other]
  · rw [Bool.not_eq_true] at own
    rw [Change.heldAfter_of_not_sets own]
    constructor
    · rw [lastChange?_concat, own, recalls.unset]
      rfl
    · intro value
      rw [lastChange?_concat, own, recalls.whole]
      rfl
    · intro index
      rw [elementsSince_of_not_sets changes own, recalls.elements]

/-- What a variable holds after some changes agrees with them. -/
theorem recalls_afterChanges (name : String) (changes : List Change) :
    Recalls name changes (afterChanges changes).variableTable[name]? := by
  induction changes using List.reverseRecOn with
  | nil =>
      constructor <;> simp [afterChanges, empty, lastChange?, elementsSince]
  | append_singleton changes change ih =>
      rw [afterChanges_concat, variableTable_apply]
      exact ih.concat change

/-! ## The last change of a variable -/

theorem lastChange?_eq_none_iff {name : String} {changes : List Change} :
    lastChange? name changes = none ↔ ∀ change ∈ changes, change.sets name = false := by
  simp [lastChange?]

theorem sets_of_lastChange? {name : String} {changes : List Change} {change : Change}
    (last : lastChange? name changes = some change) : change.sets name :=
  (List.mem_filter.mp (List.mem_of_getLast? last)).2

/-- An element just set has been set since the variable was last set as a whole. -/
theorem mem_elementsSince_of_lastChange? {name : String} {changes : List Change} {index : Int32}
    {value : Value} (last : lastChange? name changes = some (.setElement name index value)) :
    (index, value) ∈ elementsSince name changes := by
  induction changes using List.reverseRecOn with
  | nil => cases last
  | append_singleton changes change ih =>
      rw [lastChange?_concat] at last
      by_cases own : change.sets name
      · rw [if_pos own] at last
        cases last
        simp [elementsSince_concat, Change.replaces, Change.element?]
      · rw [Bool.not_eq_true] at own
        rw [own] at last
        rw [elementsSince_of_not_sets changes own]
        exact ih last

namespace Recalls

variable {name : String} {changes : List Change}

/-- A variable that holds an array was last set in one element. -/
theorem exists_setElement {elements : Std.TreeMap Int32 Value}
    (recalls : Recalls name changes (some (.array elements))) :
    ∃ index value, lastChange? name changes = some (.setElement name index value) := by
  cases last : lastChange? name changes with
  | none => cases recalls.unset.mpr last
  | some change =>
      rcases Change.cases_of_sets (sets_of_lastChange? last) with
        ⟨value, rfl⟩ | ⟨index, value, rfl⟩
      · cases (recalls.whole value).mpr last
      · exact ⟨index, value, rfl⟩

/-- The indices of an array are those of the elements set since the variable
was last set as a whole. -/
theorem mem_iff {elements : Std.TreeMap Int32 Value}
    (recalls : Recalls name changes (some (.array elements))) {index : Int32} :
    index ∈ elements ↔ ∃ value, (index, value) ∈ elementsSince name changes := by
  have found : elements[index]? = (elementsSince name changes).reverse.lookup index :=
    recalls.elements index
  rw [Std.TreeMap.mem_iff_isSome_getElem?, found, List.lookup_isSome_iff]
  simp

/-- The number of elements of an array is the greatest index in its history. -/
theorem count_eq_iff {elements : Std.TreeMap Int32 Value}
    (recalls : Recalls name changes (some (.array elements))) {count : Int32} :
    (VariableValue.array elements).count = count ↔
      IsGreatest {index | ∃ value, (index, value) ∈ elementsSince name changes} count := by
  have greatest : elements.maxKey? = some count ↔
      IsGreatest {index | ∃ value, (index, value) ∈ elementsSince name changes} count := by
    rw [Std.TreeMap.maxKey?_eq_some_iff_mem_and_forall]
    simp only [IsGreatest, upperBounds, Set.mem_ofPred_eq, recalls.mem_iff, Std.isLE_compare]
  rcases recalls.exists_setElement with ⟨index, value, last⟩
  have held : index ∈ elements := recalls.mem_iff.mpr ⟨value, mem_elementsSince_of_lastChange? last⟩
  rcases Option.isSome_iff_exists.mp (Std.TreeMap.isSome_maxKey?_of_mem held) with ⟨key, isMax⟩
  rw [← greatest, VariableValue.count, isMax]
  simp

variable {held : Option VariableValue} (recalls : Recalls name changes held)

include recalls

theorem value?_nil {value : Value} :
    (held.bind fun contents => contents.value? []) = some value ↔
      lastChange? name changes = some (.setVariable name value) := by
  rw [← recalls.whole value]
  rcases held with _ | ⟨scalar | elements⟩ <;> simp [VariableValue.value?]

theorem value?_singleton (index : Int32) :
    (held.bind fun contents => contents.value? [index]) =
      (elementsSince name changes).reverse.lookup index := by
  rw [← recalls.elements index]
  rcases held with _ | ⟨scalar | elements⟩ <;> simp [VariableValue.value?, VariableValue.elements]

theorem count_eq_some_iff {count : Int32} :
    held.map VariableValue.count = some count ↔
      (∃ value, lastChange? name changes = some (.setVariable name value)) ∧ count = 0 ∨
        (∃ index value, lastChange? name changes = some (.setElement name index value)) ∧
          IsGreatest {index | ∃ value, (index, value) ∈ elementsSince name changes} count := by
  rcases held with _ | ⟨scalar | elements⟩
  · simp [recalls.unset.mp rfl]
  · simp [(recalls.whole scalar).mp rfl, VariableValue.count, eq_comm]
  · rcases recalls.exists_setElement with ⟨index, value, last⟩
    simp [recalls.count_eq_iff, last]

end Recalls

theorem value?_cons_cons (store : Store) (name : String) (first second : Int32)
    (rest : List Int32) : store.value? name (first :: second :: rest) = none := by
  rw [value?, Option.bind_eq_none_iff]
  intro contents _
  cases contents <;> rfl

/-! ## Answers -/

/-- Two stores answer all questions about a name alike. -/
structure AnswerAlike (name : String) (first second : Store) : Prop where
  value? (subscript : List Int32) : first.value? name subscript = second.value? name subscript
  count? : first.count? name = second.count? name
  symbol? : first.symbol? name = second.symbol? name
  symbolAttribute? (kind : Attribute) :
    first.symbolAttribute? kind name = second.symbolAttribute? kind name

/-- A name is unaffected by changes of others. -/
theorem tables_afterChanges_filter (name : String) (changes : List Change) :
    let own := afterChanges (changes.filter (·.name = name))
    own.variableTable[name]? = (afterChanges changes).variableTable[name]? ∧
      own.symbolTable[name]? = (afterChanges changes).symbolTable[name]? := by
  induction changes using List.reverseRecOn with
  | nil => exact ⟨rfl, rfl⟩
  | append_singleton changes change ih =>
      rw [List.filter_append]
      by_cases same : change.name = name
      · simp only [List.filter_singleton, same, decide_true, cond_true, afterChanges_concat,
          variableTable_apply, symbolTable_apply, ih, and_self]
      · rcases change.ignores_of_name_ne same with ⟨notSet, notDefined⟩
        simp only [List.filter_singleton, same, decide_false, cond_false, List.append_nil,
          afterChanges_concat, variableTable_apply, symbolTable_apply,
          Change.heldAfter_of_not_sets notSet, notDefined, Option.none_or, ih, and_self]

/-- Calls about other names have no effect on a name. -/
theorem answerAlike_afterChanges_filter (name : String) (changes : List Change) :
    AnswerAlike name (afterChanges changes) (afterChanges (changes.filter (·.name = name))) := by
  rcases tables_afterChanges_filter name changes with ⟨sameVariable, sameSymbol⟩
  constructor
  · intro subscript
    rw [Store.value?, Store.value?, sameVariable]
  · rw [Store.count?, Store.count?, sameVariable]
  · rw [Store.symbol?, Store.symbol?, sameSymbol]
  · intro kind
    rw [Store.symbolAttribute?, Store.symbolAttribute?, sameSymbol]

/-- What a store answers about an ordinary symbol, given the definition of the symbol: its value, and
the attributes that a definition gives. -/
structure AnswersSymbol (store : Store) (name : String) (definition : Option OrdinarySymbol) :
    Prop where
  value : store.symbol? name = definition.map fun symbol => symbol.value
  type : store.symbolAttribute? .type name =
    definition.map fun symbol => .character (String.singleton symbol.type)
  length : store.symbolAttribute? .length name =
    definition.map fun symbol => .arithmetic symbol.length
  scale : store.symbolAttribute? .scale name =
    definition.map fun symbol => .arithmetic symbol.scale
  integer : store.symbolAttribute? .integer name =
    definition.map fun symbol => .arithmetic symbol.integer
  defined : store.symbolAttribute? .defined name = definition.map fun _ => .arithmetic 1
  others : ∀ kind ∈ [Attribute.count, .number, .opcode], store.symbolAttribute? kind name = none

/-- A symbol is answered about from its entry in the table. -/
theorem answersSymbol (store : Store) (name : String) :
    AnswersSymbol store name store.symbolTable[name]? := by
  constructor <;> cases defined : store.symbolTable[name]? <;>
    simp [symbol?, symbolAttribute?, defined, OrdinarySymbol.attributeValue?]

/-- What a store answers about a name after any sequence of changes.  The value of a variable
without a subscript is the one it was last set to, unless an element was set later; the value under
one subscript is the one that element was last set to since the variable was last set as a whole;
the number of elements is zero for a variable last set as a whole, and otherwise the greatest index
set since, which may be zero as well.  A symbol is as it was last defined, and other names do not
matter. -/
theorem answers_after_changes (changes : List Change) (name : String) :
    let store := afterChanges changes
    let last := lastChange? name changes
    let elements := elementsSince name changes
    (∀ value, store.value? name [] = some value ↔ last = some (.setVariable name value)) ∧
    (∀ index, store.value? name [index] = elements.reverse.lookup index) ∧
    (∀ first second rest, store.value? name (first :: second :: rest) = none) ∧
    (store.count? name = none ↔ ∀ change ∈ changes, change.sets name = false) ∧
    (∀ count, store.count? name = some count ↔
      (∃ value, last = some (.setVariable name value)) ∧ count = 0 ∨
        (∃ index value, last = some (.setElement name index value)) ∧
          IsGreatest {index | ∃ value, (index, value) ∈ elements} count) ∧
    AnswersSymbol store name (lastDefinition? name changes) ∧
    AnswerAlike name store (afterChanges (changes.filter (·.name = name))) := by
  intro store last elements
  have recalls : Recalls name changes store.variableTable[name]? :=
    recalls_afterChanges name changes
  constructor
  · intro value
    exact recalls.value?_nil
  constructor
  · exact recalls.value?_singleton
  constructor
  · exact store.value?_cons_cons name
  constructor
  · rw [← lastChange?_eq_none_iff, ← recalls.unset, count?, Option.map_eq_none_iff]
  constructor
  · intro count
    exact recalls.count_eq_some_iff
  constructor
  · rw [← symbolTable_afterChanges]
    exact store.answersSymbol name
  · exact answerAlike_afterChanges_filter name changes

/-- A variable set element by element, as a whole, and element by element again, and a symbol that
is defined twice. -/
def severalChanges : List Change :=
  [.setElement "A" 2 (.binary true), .defineSymbol "F" ⟨1, 'U', 1, 0, 0⟩,
    .setVariable "A" (.arithmetic 7), .setElement "A" 5 (.binary false),
    .defineSymbol "F" ⟨40, 'C', 8, 2, 3⟩, .setElement "A" 3 (.binary true)]

/-- Setting `A` as a whole forgets its second element, and of the elements set since the fifth is
the last.  The attributes of `F` are those of its second definition. -/
theorem answers_after_changes_several :
    let store := afterChanges severalChanges
    (store.value? "A" [5] = some (.binary false) ∧ store.value? "A" [2] = none ∧
      store.value? "A" [5, 3] = none ∧ store.count? "A" = some 5) ∧
    (store.symbol? "F" = some 40 ∧ store.symbolAttribute? .type "F" = some (.character "C") ∧
      store.symbolAttribute? .length "F" = some (.arithmetic 8) ∧
      store.symbolAttribute? .defined "F" = some (.arithmetic 1) ∧
      store.symbolAttribute? .opcode "F" = none) := by
  intro store
  obtain ⟨_, elements, longer, _, count, _, _⟩ := answers_after_changes severalChanges "A"
  obtain ⟨_, _, _, _, _, symbol, _⟩ := answers_after_changes severalChanges "F"
  have since : elementsSince "A" severalChanges = [(5, .binary false), (3, .binary true)] := by cbv
  have greatest : IsGreatest {index | ∃ value, (index, value) ∈ elementsSince "A" severalChanges}
      5 := by
    constructor
    · exact ⟨.binary false, by simp [since]⟩
    · rintro index ⟨value, isElement⟩
      rw [since, List.mem_pair, Prod.mk.injEq, Prod.mk.injEq] at isElement
      rcases isElement with ⟨rfl, _⟩ | ⟨rfl, _⟩
      · decide
      · decide
  refine ⟨⟨?_, ?_, longer 5 3 [], ?_⟩, ?_⟩
  · rw [elements, since]
    rfl
  · rw [elements, since]
    rfl
  · exact (count 5).mpr (.inr ⟨⟨3, .binary true, by cbv⟩, greatest⟩)
  · have defined : lastDefinition? "F" severalChanges = some ⟨40, 'C', 8, 2, 3⟩ := by cbv
    rw [defined] at symbol
    exact ⟨symbol.value, symbol.type, symbol.length, symbol.defined, symbol.others _ (by simp)⟩

/-- The number of elements may be zero although the variable was last set in one element. -/
theorem count_zero_of_element :
    let changes := [Change.setElement "A" 0 (.arithmetic 1)]
    ¬ ((afterChanges changes).count? "A" = some 0 ↔
      ∃ value, lastChange? "A" changes = some (.setVariable "A" value)) := by
  intro changes same
  have noElement : (afterChanges changes).count? "A" = some 0 := by cbv
  obtain ⟨value, last⟩ := same.mp noElement
  have element : lastChange? "A" changes = some (.setElement "A" 0 (.arithmetic 1)) := by cbv
  cases element.symm.trans last

end ConditionalAssembly.Store
