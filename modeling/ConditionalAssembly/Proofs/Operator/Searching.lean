import Mathlib
import ConditionalAssembly.Proofs.Evaluation.Strings
import ConditionalAssembly.Proofs.Text.Bytes

/-!
# Searching

`INDEX` searches a text for another and `FIND` for any of some characters.
Both give the least position there is, counted in characters from one, and
zero when there is none.  The positions are those by which a part of the text
is selected, so what `INDEX` has found can be selected again.
-/

namespace ConditionalAssembly

namespace Text

/-- A text stands in another at a position, counted in characters from one. -/
def StandsAt (part text : String) (position : Nat) : Prop :=
  ∃ before after : String, text = before ++ part ++ after ∧ position = before.length + 1

/-- Behind `place` characters a text stands exactly when the characters go on with it. -/
theorem standsAt_succ_iff {part text : String} {place : Nat} :
    StandsAt part text (place + 1) ↔
      place ≤ text.toList.length ∧ part.toList <+: text.toList.drop place := by
  constructor
  · rintro ⟨before, after, rfl, position⟩
    have isPlace : place = before.toList.length := by
      rw [String.length_toList]
      omega
    simp only [isPlace, String.toList_append, List.append_assoc, List.drop_left]
    exact ⟨by simp, List.prefix_append _ _⟩
  · rintro ⟨inside, after, follows⟩
    refine ⟨String.ofList (text.toList.take place), String.ofList after, ?_, ?_⟩
    · apply String.toList_inj.mp
      rw [String.toList_append, String.toList_append, String.toList_ofList, String.toList_ofList,
        List.append_assoc, follows, List.take_append_drop]
    · rw [String.length_ofList, List.length_take, min_eq_left inside]

theorem standsAt_succ_iff_of_nonempty {part text : String} (nonempty : part ≠ "") {place : Nat} :
    StandsAt part text (place + 1) ↔ part.toList <+: text.toList.drop place := by
  rw [standsAt_succ_iff, and_iff_right_iff_imp]
  intro found
  by_contra beyond
  rw [List.drop_eq_nil_of_le (by omega), List.prefix_nil, String.toList_eq_nil_iff] at found
  exact nonempty found

theorem standsAt_toString_succ_iff {c : Char} {text : String} {place : Nat} :
    StandsAt c.toString text (place + 1) ↔ text.toList[place]? = some c := by
  rw [standsAt_succ_iff_of_nonempty (by simp), ← List.head?_drop]
  cases text.toList.drop place <;> simp [List.cons_prefix_cons, eq_comm]

theorem not_standsAt_zero (part text : String) : ¬ StandsAt part text 0 := by
  rintro ⟨before, _, _, position⟩
  exact Nat.succ_ne_zero _ position.symm

/-- The count is the least of some positions, or zero when there is none. -/
def IsFirst (positions : Set Nat) (count : Nat) : Prop :=
  0 < count ∧ IsLeast positions count ∨ positions = ∅ ∧ count = 0

/-- A search among places finds the first of the positions directly behind them. -/
theorem isFirst_of_search {positions places : Set Nat} {found : Option Nat}
    (noZero : 0 ∉ positions) (behind : ∀ place, place + 1 ∈ positions ↔ place ∈ places)
    (first : ∀ place, found = some place → IsLeast places place)
    (nowhere : found = none → places = ∅) : IsFirst positions (found.elim 0 (· + 1)) := by
  cases found with
  | none =>
      refine .inr ⟨Set.eq_empty_iff_forall_notMem.mpr fun position stands => ?_, rfl⟩
      cases position with
      | zero => exact noZero stands
      | succ place =>
          exact Set.eq_empty_iff_forall_notMem.mp (nowhere rfl) place ((behind place).mp stands)
  | some place =>
      have least := first place rfl
      refine .inl ⟨Nat.succ_pos place, (behind place).mpr least.1, fun position stands => ?_⟩
      cases position with
      | zero => exact absurd stands noZero
      | succ other => exact Nat.succ_le_succ (least.2 ((behind other).mp stands))

/-- The positions at which a text is found in another.  The empty text is found nowhere. -/
def positionsOf (part text : String) : Set Nat :=
  {position | part ≠ "" ∧ StandsAt part text position}

/-- The positions at which one of some characters stands. -/
def positionsOfAny (wanted text : String) : Set Nat :=
  {position | ∃ c ∈ wanted.toList, StandsAt c.toString text position}

/-- `INDEX` searches for the first position of a text. -/
theorem isFirst_index (text part : String) : IsFirst (positionsOf part text) (index text part) := by
  by_cases empty : part = ""
  · subst empty
    exact .inr ⟨by simp [positionsOf], rfl⟩
  have search : index text part = (occurrence? part.toList text.toList).elim 0 (· + 1) := by
    rw [index, if_neg (by simpa using empty)]
    cases occurrence? part.toList text.toList <;> rfl
  rw [search, occurrence?_eq_findIdx?]
  refine isFirst_of_search (fun stands => not_standsAt_zero part text stands.2) (fun place => ?_)
    (fun place => findIdx?_tails_eq_some_iff.mp) findIdx?_tails_eq_none_iff.mp
  exact (and_iff_right empty).trans (standsAt_succ_iff_of_nonempty empty)

/-- `FIND` searches for the first position of any of some characters. -/
theorem isFirst_find (text wanted : String) :
    IsFirst (positionsOfAny wanted text) (find text wanted) := by
  have search : find text wanted =
      (text.toList.findIdx? (wanted.toList.contains ·)).elim 0 (· + 1) := by
    rw [find]
    cases text.toList.findIdx? (wanted.toList.contains ·) <;> rfl
  have behind (place : Nat) : place + 1 ∈ positionsOfAny wanted text ↔
      place ∈ {place | ∃ c ∈ wanted.toList, text.toList[place]? = some c} := by
    simp only [positionsOfAny, Set.mem_ofPred_eq, standsAt_toString_succ_iff]
  rw [search]
  refine isFirst_of_search ?_ behind ?_ ?_
  · rintro ⟨c, _, stands⟩
    exact not_standsAt_zero _ _ stands
  · intro place found
    obtain ⟨inside, isWanted, notBefore⟩ := List.findIdx?_eq_some_iff_getElem.mp found
    refine ⟨⟨_, by simpa using isWanted, List.getElem?_eq_getElem inside⟩, ?_⟩
    rintro other ⟨c, wantedToo, there⟩
    obtain ⟨_, rfl⟩ := List.getElem?_eq_some_iff.mp there
    by_contra earlier
    exact notBefore other (not_le.mp earlier) (by simpa using wantedToo)
  · intro nowhere
    apply Set.eq_empty_iff_forall_notMem.mpr
    rintro place ⟨c, isWanted, there⟩
    have unwanted := List.findIdx?_eq_none_iff.mp nowhere c (List.mem_of_getElem? there)
    simp [isWanted] at unwanted

theorem length_pos {text : String} (nonempty : text ≠ "") : 0 < text.length :=
  Nat.pos_of_ne_zero (String.length_eq_zero_iff.not.mpr nonempty)

/-- A text that is not empty stands at no position beyond the end. -/
theorem StandsAt.le_length {part text : String} {position : Nat}
    (stands : StandsAt part text position) (nonempty : part ≠ "") : position ≤ text.length := by
  obtain ⟨before, after, rfl, rfl⟩ := stands
  have characters := length_pos nonempty
  simp only [String.length_append]
  omega

/-- The least of some positions within a text is within it. -/
theorem IsFirst.le_length {positions : Set Nat} {count : Nat} {text : String}
    (first : IsFirst positions count) (within : ∀ position ∈ positions, position ≤ text.length) :
    count ≤ text.length := by
  rcases first with ⟨_, isLeast⟩ | ⟨_, rfl⟩
  · exact within count isLeast.1
  · exact Nat.zero_le _

theorem index_le_length (text part : String) : index text part ≤ text.length :=
  (isFirst_index text part).le_length fun _ stands => stands.2.le_length stands.1

theorem find_le_length (text wanted : String) : find text wanted ≤ text.length :=
  (isFirst_find text wanted).le_length fun _ ⟨_, _, stands⟩ => stands.le_length (by simp)

end Text

open Text

/-! ## Positions as words -/

/-- The result is the least of some positions, or zero when there is none. -/
structure GivesLeast (result : Except Problem Value) (positions : Set Nat) : Prop where
  answers : ∃ position : Int32, result = .ok (.arithmetic position) ∧ 0 ≤ position.toInt
  least : ∀ position : Int32, 0 < position.toInt →
    (result = .ok (.arithmetic position) ↔ IsLeast positions position.toInt.toNat)
  nothing : result = .ok (.arithmetic 0) ↔ positions = ∅

/-- A position within the range of words is given as it is. -/
theorem Text.IsFirst.givesLeast {positions : Set Nat} {count : Nat}
    (first : IsFirst positions count) (fits : count ≤ 2147483647) :
    GivesLeast (.ok (.arithmetic (Word.ofCount count))) positions := by
  have value := Word.toInt_ofCount fits
  rcases first with ⟨positive, isLeast⟩ | ⟨empty, rfl⟩
  · refine ⟨⟨_, rfl, by omega⟩, fun position _ => ?_, ?_⟩
    · rw [Except.ok.injEq, Value.arithmetic.injEq]
      constructor
      · rintro rfl
        rwa [value]
      · intro alsoLeast
        have same := isLeast.unique alsoLeast
        apply Int32.toInt_inj.mp
        omega
    · have nonempty : positions ≠ ∅ := Set.Nonempty.ne_empty ⟨count, isLeast.1⟩
      rw [Except.ok.injEq, Value.arithmetic.injEq, ← Int32.toInt_inj, value,
        iff_false_right nonempty]
      change (count : Int) ≠ 0
      omega
  · refine ⟨⟨_, rfl, by omega⟩, fun position positive => ?_, iff_of_true rfl empty⟩
    rw [Except.ok.injEq, Value.arithmetic.injEq, ← Int32.toInt_inj, value, empty]
    refine iff_of_false (by omega) fun isLeast => ?_
    exact isLeast.1

/-! ## Selecting what was found -/

open Evaluation

/-- As many characters as a text has, from where it stands, are the text. -/
theorem select_of_standsAt {part text : String} (fits : text.length ≤ 2147483647)
    (nonempty : part ≠ "") {position : Int32} (stands : StandsAt part text position.toInt.toNat) :
    select text position (some (Word.ofCount part.length)) = .ok part := by
  obtain ⟨place, isPlace⟩ : ∃ place, position.toInt.toNat = place + 1 :=
    Nat.exists_eq_succ_of_ne_zero fun zero => not_standsAt_zero part text (zero ▸ stands)
  have inside := stands.le_length nonempty
  rw [isPlace] at stands
  obtain ⟨after, follows⟩ := (standsAt_succ_iff_of_nonempty nonempty).mp stands
  have some := length_pos nonempty
  have shorter : part.length ≤ text.length := by
    have sizes := congrArg List.length follows
    rw [List.length_append, List.length_drop, String.length_toList, String.length_toList] at sizes
    omega
  have count := Word.toInt_ofCount (shorter.trans fits)
  have notZero : Word.ofCount part.length ≠ 0 := by
    intro zero
    rw [zero] at count
    exact some.ne (Int.ofNat.inj count)
  rw [select, Option.getD_some, if_neg (by omega), if_neg notZero, if_neg (by omega), isPlace,
    Nat.add_sub_cancel, ← follows, count, Int.toNat_natCast, ← String.length_toList,
    List.take_left, String.ofList_toList]

/-- `INDEX` gives the least position at which a text stands in another, if it is not empty, and
`FIND` the least one at which any of its characters does; both give zero when there is none.  As
many characters as the text has, selected from where `INDEX` has found it, are the text.  A search
among the bytes gives the same. -/
theorem searches_least {text : String} (fits : text.length ≤ 2147483647) (part : String) :
    GivesLeast (BinaryOperator.index.apply (.character text) (.character part))
        {position | part ≠ "" ∧ StandsAt part text position} ∧
      GivesLeast (BinaryOperator.find.apply (.character text) (.character part))
        {position | ∃ c ∈ part.toList, StandsAt c.toString text position} ∧
      (∀ position : Int32, 0 < position.toInt →
        BinaryOperator.index.apply (.character text) (.character part) =
          .ok (.arithmetic position) →
        ∀ (store : Store) (start count : Expr),
          (start.evaluateAs store .arithmetic).value = .arithmetic position →
          (count.evaluateAs store .arithmetic).value = .arithmetic (Word.ofCount part.length) →
          (Selection.evaluate store text ⟨some start, some count, false⟩).value = .ok part) ∧
      index text part = indexInBytes (bytes text.toList) (bytes part.toList) := by
  have isIndex := (isFirst_index text part).givesLeast ((index_le_length text part).trans fits)
  have isFind := (isFirst_find text part).givesLeast ((find_le_length text part).trans fits)
  refine ⟨isIndex, isFind, ?_, index_eq_indexInBytes text part⟩
  intro position positive found store start count isStart isCount
  obtain ⟨nonempty, stands⟩ := ((isIndex.least position positive).mp found).1
  have first : (number start.range (start.evaluate store)).value = position :=
    congrArg word isStart
  have characters : (number count.range (count.evaluate store)).value = Word.ofCount part.length :=
    congrArg word isCount
  have selected := select_of_standsAt fits nonempty stands
  simp [Selection.evaluate, first, characters, selected]

/-- Characters of two bytes count as one each. -/
theorem searches_least_accented :
    "aébéb".length ≤ 2147483647 ∧
      BinaryOperator.index.apply (.character "aébéb") (.character "éb") = .ok (.arithmetic 2) ∧
      IsLeast {position | "éb" ≠ "" ∧ StandsAt "éb" "aébéb" position} 2 ∧
      IsLeast {position | ∃ c ∈ "xb".toList, StandsAt c.toString "aébéb" position} 3 ∧
      (Selection.evaluate .empty "aébéb"
        ⟨some (.constant 2 (.columns 0 1) (some .arithmetic)),
          some (.constant 2 (.columns 2 3) (some .arithmetic)), false⟩).value = .ok "éb" := by
  have fits : "aébéb".length ≤ 2147483647 := by decide
  have found : BinaryOperator.index.apply (.character "aébéb") (.character "éb") =
      .ok (.arithmetic 2) := by decide
  obtain ⟨isIndex, _, selects, _⟩ := searches_least fits "éb"
  obtain ⟨_, isFind, _⟩ := searches_least fits "xb"
  refine ⟨fits, found, (isIndex.least 2 (by decide)).mp found,
    (isFind.least 3 (by decide)).mp (by decide), ?_⟩
  exact selects 2 (by decide) found .empty _ _ (by cbv) (by cbv)

end ConditionalAssembly
