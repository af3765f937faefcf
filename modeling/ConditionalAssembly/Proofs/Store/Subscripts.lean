import ConditionalAssembly.CommandLine.Run
import ConditionalAssembly.Proofs.Store.History

/-!
# Subscripts and numbers of elements

Subscripts are meant to count from one, and the number of elements of a
variable is its greatest index.  In every store the elements stand at or below
that number.  Nothing keeps an element from being set at zero or below, though.
It then has a value there, and without others above it the number of elements
is negative as well.
-/

namespace ConditionalAssembly

open Store

namespace CommandLine

/-- The change of the store that an assignment makes. -/
def Assignment.change (assignment : Assignment) : Change :=
  match assignment.index with
  | some index => .setElement assignment.name index assignment.value
  | none => .setVariable assignment.name assignment.value

theorem Assignment.apply_change (store : Store) (assignment : Assignment) :
    assignment.change.apply store = assignment.apply store := by
  rcases assignment with ⟨name, _ | index, value⟩ <;> rfl

/-- The changes that the options ask for, in their order. -/
def Options.changes (options : Options) : List Change :=
  options.assignments.map Assignment.change ++
    options.definitions.map fun definition => .defineSymbol definition.name definition.symbol

/-- The store that the options describe has a history like any other. -/
theorem Options.store_eq_afterChanges (options : Options) :
    options.store = afterChanges options.changes := by
  have assigned : (fun store (assignment : Assignment) => assignment.change.apply store) =
      Assignment.apply := by
    funext store assignment
    exact assignment.apply_change store
  rw [afterChanges, changes, List.foldl_append, List.foldl_map, List.foldl_map, assigned]
  rfl

end CommandLine

namespace Store

open CommandLine

/-- The answers about a variable are those for subscripts that count from one:
the number of elements is not negative, and an element that has a value stands
between the first and that number. -/
structure OneBased (store : Store) (name : String) : Prop where
  nonneg {count : Int32} : store.count? name = some count → 0 ≤ count
  between {index : Int32} : (store.value? name [index]).isSome →
    1 ≤ index ∧ ∃ count, store.count? name = some count ∧ index ≤ count

/-- In any store an element stands at or below the number of elements, and there is one at that
number. -/
theorem exists_count_of_held {store : Store} {name : String} {index : Int32}
    (held : (store.value? name [index]).isSome) :
    ∃ count, store.count? name = some count ∧ index ≤ count ∧
      (store.value? name [count]).isSome := by
  rcases contents : store.variableTable[name]? with _ | ⟨scalar | elements⟩
  · simp [value?, contents] at held
  · simp [value?, contents, VariableValue.value?] at held
  · have mem_iff (asked : Int32) : (store.value? name [asked]).isSome ↔ asked ∈ elements := by
      rw [value?, contents, Std.TreeMap.mem_iff_isSome_getElem?]
      rfl
    rcases Option.isSome_iff_exists.mp (Std.TreeMap.isSome_maxKey?_of_mem ((mem_iff index).mp held))
      with ⟨greatest, isMax⟩
    rcases Std.TreeMap.maxKey?_eq_some_iff_mem_and_forall.mp isMax with ⟨isElement, above⟩
    refine ⟨greatest, ?_, ?_, (mem_iff greatest).mpr isElement⟩
    · rw [count?, contents, Option.map_some, VariableValue.count, isMax, Option.getD_some]
    · exact Std.isLE_compare.mp (above index ((mem_iff index).mp held))

variable {name : String} {changes : List Change}

/-- The elements that have a value are those set since the variable was last set as a whole. -/
theorem held_iff_mem_elementsSince {index : Int32} :
    ((afterChanges changes).value? name [index]).isSome ↔
      ∃ value, (index, value) ∈ elementsSince name changes := by
  rw [value?, (recalls_afterChanges name changes).value?_singleton, List.lookup_isSome_iff]
  simp

/-- A number of elements other than zero is the index of an element. -/
theorem held_at_count {count : Int32} (counted : (afterChanges changes).count? name = some count)
    (nonzero : count ≠ 0) : ((afterChanges changes).value? name [count]).isSome := by
  rcases (recalls_afterChanges name changes).count_eq_some_iff.mp counted with
    ⟨_, zero⟩ | ⟨_, greatest⟩
  · exact absurd zero nonzero
  · exact held_iff_mem_elementsSince.mpr greatest.1

/-- The subscripts of a variable count from one as long as no element was set elsewhere. -/
theorem oneBased_iff_one_le :
    (afterChanges changes).OneBased name ↔
      ∀ element ∈ elementsSince name changes, 1 ≤ element.1 := by
  constructor
  · rintro oneBased ⟨index, value⟩ isElement
    exact (oneBased.between (held_iff_mem_elementsSince.mpr ⟨value, isElement⟩)).1
  · intro positive
    have one_le {index : Int32} (held : ((afterChanges changes).value? name [index]).isSome) :
        1 ≤ index := by
      rcases held_iff_mem_elementsSince.mp held with ⟨value, isElement⟩
      exact positive (index, value) isElement
    constructor
    · intro count counted
      by_cases zero : count = 0
      · exact Int32.le_of_eq zero.symm
      · exact Int32.le_trans (by decide) (one_le (held_at_count counted zero))
    · intro index held
      rcases exists_count_of_held held with ⟨count, counted, below, _⟩
      exact ⟨one_le held, count, counted, below⟩

/-- The number of elements is negative when elements were set below zero only. -/
theorem count_neg_iff :
    (∃ count, (afterChanges changes).count? name = some count ∧ count < 0) ↔
      elementsSince name changes ≠ [] ∧ ∀ element ∈ elementsSince name changes, element.1 < 0 := by
  constructor
  · rintro ⟨count, counted, negative⟩
    have nonzero : count ≠ 0 := by
      rintro rfl
      exact absurd negative (by decide)
    rcases held_iff_mem_elementsSince.mp (held_at_count counted nonzero) with ⟨value, isElement⟩
    refine ⟨List.ne_nil_of_mem isElement, ?_⟩
    rintro ⟨index, other⟩ isOther
    rcases exists_count_of_held (held_iff_mem_elementsSince.mpr ⟨other, isOther⟩) with
      ⟨same, countedSame, below, _⟩
    cases counted.symm.trans countedSame
    exact Int32.lt_of_le_of_lt below negative
  · rintro ⟨nonempty, negative⟩
    rcases List.exists_mem_of_ne_nil _ nonempty with ⟨⟨index, value⟩, isElement⟩
    rcases exists_count_of_held (held_iff_mem_elementsSince.mpr ⟨value, isElement⟩) with
      ⟨count, counted, _, held⟩
    rcases held_iff_mem_elementsSince.mp held with ⟨greatest, isGreatest⟩
    exact ⟨count, counted, negative (count, greatest) isGreatest⟩

/-- After any changes, and so for any arguments, the elements of a variable
stand at or below their number.  Its subscripts count from one exactly when all
elements that were set since the variable was last set as a whole were set
there, and their number is negative exactly when they were all set below zero. -/
theorem oneBased_afterChanges (changes : List Change) (name : String) :
    let store := afterChanges changes
    let elements := elementsSince name changes
    (∀ options : Options, options.changes = changes → options.store = store) ∧
    (∀ index, (store.value? name [index]).isSome →
      ∃ count, store.count? name = some count ∧ index ≤ count) ∧
    (store.OneBased name ↔ ∀ element ∈ elements, 1 ≤ element.1) ∧
    ((∃ count, store.count? name = some count ∧ count < 0) ↔
      elements ≠ [] ∧ ∀ element ∈ elements, element.1 < 0) := by
  constructor
  · rintro options rfl
    exact options.store_eq_afterChanges
  constructor
  · intro index held
    rcases exists_count_of_held held with ⟨count, counted, below, _⟩
    exact ⟨count, counted, below⟩
  · exact ⟨oneBased_iff_one_le, count_neg_iff⟩

/-- Arguments that set an element at zero and another below it are accepted.  The first has a value
under a subscript that does not exist, the second makes a number of elements negative. -/
theorem subscripts_below_one_accepted :
    ∃ options source,
      Options.parse ["-s", "A(0)=1", "-s", "B(-5)=1", "1"] = .ok (options, source) ∧
        ¬ options.store.OneBased "A" ∧ options.store.count? "B" = some (-5) := by
  refine ⟨_, _, rfl, ?_, by cbv⟩
  intro oneBased
  have impossible : (1 : Int32) ≤ 0 := (oneBased.between (by cbv)).1
  exact absurd impossible (by decide)

end Store

end ConditionalAssembly
