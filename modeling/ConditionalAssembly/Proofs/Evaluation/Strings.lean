import Mathlib
import ConditionalAssembly.Proofs.Evaluation.Requests

/-!
# The value of a string

A string selects a part of its text and copies it.  The positions of the part
are found in words that stop at their ends, and the copies are cut before they
grow too long.  The value is nevertheless the one that exact arithmetic gives
for copies made in full and cut afterwards, and a text that is too long is
reported once.
-/

namespace ConditionalAssembly

/-! ## Words nearest to integers -/

namespace Word

theorem toInt_clamp (n : Int) : (clamp n).toInt = max (-2147483648) (min 2147483647 n) := by
  unfold clamp
  change (if n < -2147483648 then _ else if 2147483647 < n then _ else _ : Int32).toInt = _
  split
  next low =>
    change (-2147483648 : Int) = _
    omega
  next notLow =>
    split
    next high =>
      change (2147483647 : Int) = _
      omega
    next notHigh =>
      rw [toInt_ofInt_of_mem (Int.not_lt.mp notLow) (Int.not_lt.mp notHigh)]
      omega

/-- The word nearest to what a word denotes is that word. -/
theorem clamp_toInt (w : Int32) : clamp w.toInt = w := by
  have inRange := toInt_mem w
  change -2147483648 ≤ w.toInt ∧ w.toInt ≤ 2147483647 at inRange
  apply Int32.toInt_inj.mp
  rw [toInt_clamp]
  omega

theorem toInt_ofCount {n : Nat} (fits : n ≤ 2147483647) : (ofCount n).toInt = n := by
  rw [ofCount, toInt_clamp]
  omega

end Word

namespace Evaluation

/-! ## What is selected -/

/-- The characters of a text from one position to another, counted from one. -/
def charactersBetween (text : List Char) (first last : Int) : List Char :=
  ((text.zipIdx 1).filter fun placed => first ≤ placed.2 ∧ placed.2 ≤ last).map Prod.fst

/-- The part of a text with a certain start and number of characters, in exact
arithmetic; all of the text when no part is asked for. -/
def excerpt (text : List Char) : Option (Int32 × Int) → Except Problem (List Char)
  | none => .ok text
  | some (start, count) =>
      let invalid := Problem.invalidSubstring start (Word.clamp count) text.length
      if count < 0 then .error invalid
      else if count = 0 then .ok []
      else if 1 ≤ start.toInt ∧ start.toInt ≤ text.length then
        .ok (charactersBetween text start.toInt (start.toInt + count - 1))
      else .error invalid

/-- The number of copies that a factor asks for, one when there is no factor. -/
def copyCount : Option Int32 → Except Problem Nat
  | none => .ok 1
  | some factor =>
      if factor.toInt < 0 then .error (.invalidDuplicationFactor factor)
      else .ok factor.toInt.toNat

/-- Between two positions stand the characters that are left when those before
the first one are dropped and as many as asked for are taken. -/
theorem zipIdx_filter_eq_take_drop (text : List Char) (offset : Nat) (first last : Int) :
    ((text.zipIdx offset).filter fun placed => first ≤ placed.2 ∧ placed.2 ≤ last).map Prod.fst =
      (text.drop (first - offset).toNat).take (last + 1 - max first offset).toNat := by
  induction text generalizing offset with
  | nil => simp
  | cons c text ih =>
      have behind := ih (offset + 1)
      by_cases inside : first ≤ offset ∧ (offset : Int) ≤ last
      · have dropped : (first - offset).toNat = 0 := by omega
        have droppedBehind : (first - (offset + 1 : Nat)).toNat = 0 := by omega
        have taken : (last + 1 - max first offset).toNat =
            (last + 1 - max first (offset + 1 : Nat)).toNat + 1 := by omega
        rw [List.zipIdx_cons, List.filter_cons_of_pos (by simpa using inside), List.map_cons,
          behind, dropped, droppedBehind, taken]
        rfl
      · rw [List.zipIdx_cons, List.filter_cons_of_neg (by simpa using inside), behind]
        by_cases before : offset < first
        · have dropped : (first - offset).toNat = (first - (offset + 1 : Nat)).toNat + 1 := by omega
          have taken : max first (offset + 1 : Nat) = max first offset := by omega
          rw [dropped, taken, List.drop_succ_cons]
        · have taken : (last + 1 - max first offset).toNat = 0 := by omega
          have takenBehind : (last + 1 - max first (offset + 1 : Nat)).toNat = 0 := by omega
          rw [taken, takenBehind, List.take_zero, List.take_zero]

theorem charactersBetween_eq {text : List Char} {start count : Int} (first : 1 ≤ start) :
    charactersBetween text start (start + count - 1) =
      (text.drop (start.toNat - 1)).take count.toNat := by
  have dropped : (start - (1 : Nat)).toNat = start.toNat - 1 := by omega
  have taken : start + count - 1 + 1 - max start (1 : Nat) = count := by omega
  rw [charactersBetween, zipIdx_filter_eq_take_drop, dropped, taken]

/-- A part is selected in words as it is in exact arithmetic. -/
theorem select_of_clamp {text : String} {start : Int32} {count : Int} {count? : Option Int32}
    (word : count?.getD (countToEnd text.length start) = Word.clamp count)
    (fits : text.length ≤ 2147483647) :
    select text start count? =
      (excerpt text.toList (some (start, count))).map String.ofList := by
  have value := Word.toInt_clamp count
  have negative : (Word.clamp count).toInt < 0 ↔ count < 0 := by omega
  have zero : Word.clamp count = 0 ↔ count = 0 := by
    rw [← Int32.toInt_inj]
    change (Word.clamp count).toInt = 0 ↔ count = 0
    omega
  have outside : (start.toInt < 1 ∨ text.length < start.toInt) ↔
      ¬(1 ≤ start.toInt ∧ start.toInt ≤ text.toList.length) := by
    rw [String.length_toList]
    omega
  rw [select, word]
  simp only [excerpt, negative, zero, outside]
  by_cases isNegative : count < 0
  · rw [if_pos isNegative, if_pos isNegative, String.length_toList]
    rfl
  rw [if_neg isNegative, if_neg isNegative]
  by_cases isZero : count = 0
  · rw [if_pos isZero, if_pos isZero]
    rfl
  rw [if_neg isZero, if_neg isZero]
  by_cases inside : 1 ≤ start.toInt ∧ start.toInt ≤ text.toList.length
  · have enough : (text.toList.drop (start.toInt.toNat - 1)).length ≤ 2147483647 := by
      rw [List.length_drop, String.length_toList]
      omega
    rw [if_neg (not_not_intro inside), if_pos inside, charactersBetween_eq inside.1, value]
    -- Where the word stops short of the count, both reach beyond the end of the text.
    have taken : (max (-2147483648) (min 2147483647 count)).toNat = min 2147483647 count.toNat := by
      omega
    rw [taken, ← List.take_take,
      List.take_of_length_le ((List.length_take_le' count.toNat _).trans enough)]
    rfl
  · rw [if_pos inside, if_neg inside, String.length_toList]
    rfl

/-- The number of characters up to the end, in exact arithmetic, is brought to the nearest word. -/
theorem countToEnd_eq {length : Nat} (fits : length ≤ 2147483647) (start : Int32) :
    countToEnd length start = Word.clamp (max 0 (length - (start.toInt - 1))) := by
  have inRange := Word.toInt_mem start
  change -2147483648 ≤ start.toInt ∧ start.toInt ≤ 2147483647 at inRange
  apply Int32.toInt_inj.mp
  simp only [countToEnd, Word.toInt_clamp, Word.toInt_ofCount fits]
  omega

/-! ## Copies and results -/

/-- Copies are made as often as asked for, and cut and reported when they are too long. -/
theorem duplicate_eq (range : Range) (selected : List Char) (factor : Int32) :
    duplicate range (String.ofList selected) factor =
      match copyCount (some factor) with
      | .error problem => pure (.error problem)
      | .ok count =>
          ⟨.ok (String.ofList ((List.replicate count selected).flatten.take Value.maxLength)),
            if selected.length * count ≤ Value.maxLength then []
            else [⟨.stringTooLong (selected.length * count) Value.maxLength, range⟩]⟩ := by
  by_cases negative : factor.toInt < 0
  · have noCount : Word.toCount? factor = none := if_neg (Int.not_le.mpr negative)
    rw [duplicate, noCount, copyCount, if_pos negative]
  · have count : Word.toCount? factor = some factor.toInt.toNat :=
      Word.toCount?_eq_some_iff.mpr (Int.toNat_of_nonneg (Int.not_lt.mp negative)).symm
    rw [duplicate, count, copyCount, if_neg negative]
    simp only [Text.copies_eq_take, String.toList_ofList, String.length_ofList]
    by_cases short : selected.length * factor.toInt.toNat ≤ Value.maxLength
    · rw [if_pos short, if_pos short]
      rfl
    · rw [if_neg short, if_neg short]
      rfl

theorem settle_error (range : Range) (problem : Problem) (diagnostics : List Diagnostic) :
    settle (some .character) range
        ((·.map .character) <$> (⟨.error problem, diagnostics⟩ : Reported (Except Problem String))) =
      ⟨.character "", diagnostics ++ [⟨problem, range⟩]⟩ := by
  apply Reported.ext
  · rfl
  · simp [settle, Except.map]

/-- The result of a string is cut at the greatest length. -/
theorem settle_limited (range : Range) (text : List Char) (diagnostics : List Diagnostic) :
    settle (some .character) range
        ((·.map .character) <$>
          (⟨.ok (String.ofList text), diagnostics⟩ : Reported (Except Problem String))) =
      ⟨.character (String.ofList (text.take Value.maxLength)),
        diagnostics ++
          if text.length ≤ Value.maxLength then []
          else [⟨.stringTooLong text.length Value.maxLength, range⟩]⟩ := by
  by_cases short : text.length ≤ Value.maxLength
  · apply Reported.ext <;>
      simp [settle, Except.map, limited, conform, Value.domain, short, List.take_of_length_le]
  · apply Reported.ext <;> simp [settle, Except.map, limited, conform, Value.domain, short]

/-- The copies of what was selected, one when there is no factor. -/
def copied (range : Range) (selected : List Char) : Option Int32 → Reported (Except Problem String)
  | none => return .ok (String.ofList selected)
  | some factor => duplicate range (String.ofList selected) factor

/-- Copies that were cut already are not reported again. -/
theorem settle_copied (range : Range) (selected : List Char) (factor : Option Int32)
    (parts : List Diagnostic) :
    settle (some .character) range
        ((·.map .character) <$>
          (⟨(copied range selected factor).value,
            parts ++ (copied range selected factor).diagnostics⟩ :
              Reported (Except Problem String))) =
      match copyCount factor with
      | .error problem => ⟨.character "", parts ++ [⟨problem, range⟩]⟩
      | .ok count =>
          ⟨.character (String.ofList ((List.replicate count selected).flatten.take Value.maxLength)),
            parts ++
              if selected.length * count ≤ Value.maxLength then []
              else [⟨.stringTooLong (selected.length * count) Value.maxLength, range⟩]⟩ := by
  cases factor with
  | none => simp [copied, copyCount, settle_limited]
  | some factor =>
      rw [copied, duplicate_eq]
      cases copyCount (some factor) with
      | error problem => simp [settle_error]
      | ok count =>
          have short : ((List.replicate count selected).flatten.take Value.maxLength).length ≤
              Value.maxLength := List.length_take_le _ _
          simp only [settle_limited, if_pos short, List.append_nil, List.take_take, min_self]

end Evaluation

open Evaluation

/-! ## Strings -/

/-- The numbers that the bounds of a selection give: the start and, in exact
arithmetic, the number of characters. -/
def Selection.bounds (store : Store) (length : Nat) : Selection → Reported (Option (Int32 × Int))
  | ⟨none, _, _⟩ => return none
  | ⟨some start, none, _⟩ => do
      let first ← number start.range (start.evaluate store)
      return some (first, max 0 (length - (first.toInt - 1)))
  | ⟨some start, some count, toEnd⟩ => do
      let first ← number start.range (start.evaluate store)
      if toEnd then
        return some (first, max 0 (length - (first.toInt - 1)))
      else
        return some (first, (← number count.range (count.evaluate store)).toInt)

/-- The number that the duplication factor of a string gives, if there is one. -/
def StringTerm.factor (store : Store) : StringTerm → Reported (Option Int32)
  | ⟨none, _, _⟩ => return none
  | ⟨some factor, _, _⟩ => some <$> number factor.range (factor.evaluate store)

/-- A selection selects the part that its bounds give. -/
theorem Selection.evaluate_eq (store : Store) {text : String} (fits : text.length ≤ 2147483647)
    (selection : Selection) :
    selection.evaluate store text =
      (fun bounds => (excerpt text.toList bounds).map String.ofList) <$>
        selection.bounds store text.length := by
  have toTheEnd (start : Int32) : select text start none =
      (excerpt text.toList (some (start, max 0 (text.length - (start.toInt - 1))))).map
        String.ofList :=
    select_of_clamp (countToEnd_eq fits start) fits
  have counted (start count : Int32) : select text start (some count) =
      (excerpt text.toList (some (start, count.toInt))).map String.ofList :=
    select_of_clamp (Word.clamp_toInt count).symm fits
  rcases selection with ⟨_ | start, count, toEnd⟩
  · simp [Selection.evaluate, Selection.bounds, excerpt, Except.map]
  · cases count with
    | none => simp [Selection.evaluate, Selection.bounds, toTheEnd]
    | some count => cases toEnd <;> simp [Selection.evaluate, Selection.bounds, toTheEnd, counted]

section

variable {store : Store} {term : StringTerm} (range : Range)
  (fits : (evaluateChain store term.chain).value.length ≤ 2147483647)

include fits

/-- Of a string without the part asked for, the factor is not looked at. -/
theorem StringTerm.evaluate_of_error {problem : Problem} :
    let text := evaluateChain store term.chain
    let bounds := term.selection.bounds store text.value.length
    excerpt text.value.toList bounds.value = .error problem →
      term.evaluate store range = ⟨.error problem, text.diagnostics ++ bounds.diagnostics⟩ := by
  intro text bounds chosen
  have selects := Selection.evaluate_eq store fits term.selection
  rcases term with ⟨_ | factor, chain, selection⟩ <;>
    apply Reported.ext <;>
      simp [StringTerm.evaluate, selects, chosen, Except.map, text, bounds]

theorem StringTerm.evaluate_of_ok {selected : List Char} :
    let text := evaluateChain store term.chain
    let bounds := term.selection.bounds store text.value.length
    let factor := term.factor store
    let result := copied range selected factor.value
    excerpt text.value.toList bounds.value = .ok selected →
      term.evaluate store range =
        ⟨result.value,
          text.diagnostics ++ bounds.diagnostics ++ factor.diagnostics ++ result.diagnostics⟩ := by
  intro text bounds factor result chosen
  have selects := Selection.evaluate_eq store fits term.selection
  rcases term with ⟨_ | factor, chain, selection⟩ <;>
    apply Reported.ext <;>
      simp [StringTerm.evaluate, StringTerm.factor, copied, selects, chosen, Except.map, text,
        bounds, factor, result]

end

/-- The value of a string is a number of copies of the part selected from its
text, cut at the greatest length.  A part that is not there and a negative
number of copies are reported and give the empty text, and copies that are too
long are reported once.  All else that is reported comes from the text, the
bounds and the factor. -/
theorem Expr.evaluate_string (store : Store) (term : StringTerm) (range : Range)
    (fits : (evaluateChain store term.chain).value.length ≤ 2147483647) :
    let text := evaluateChain store term.chain
    let bounds := term.selection.bounds store text.value.length
    let factor := term.factor store
    (Expr.string term range (some .character)).evaluate store =
      match excerpt text.value.toList bounds.value with
      | .error problem =>
          ⟨.character "", text.diagnostics ++ bounds.diagnostics ++ [⟨problem, range⟩]⟩
      | .ok selected =>
          let parts := text.diagnostics ++ bounds.diagnostics ++ factor.diagnostics
          match copyCount factor.value with
          | .error problem => ⟨.character "", parts ++ [⟨problem, range⟩]⟩
          | .ok count =>
              ⟨.character (String.ofList ((List.replicate count selected).flatten.take
                Value.maxLength)),
                parts ++
                  if selected.length * count ≤ Value.maxLength then []
                  else [⟨.stringTooLong (selected.length * count) Value.maxLength, range⟩]⟩ := by
  intro text bounds factor
  rw [Expr.evaluate]
  cases chosen : excerpt text.value.toList bounds.value with
  | error problem =>
      rw [StringTerm.evaluate_of_error range fits chosen]
      exact settle_error range problem _
  | ok selected =>
      rw [StringTerm.evaluate_of_ok range fits chosen]
      exact settle_copied range selected factor.value _

/-- The string that `(3)'aéb'(2,*)` stands for. -/
def repeatedEnd : StringTerm where
  duplication := some (.constant 3 (.columns 1 2) (some .arithmetic))
  chain := [.text "aéb"]
  selection := ⟨some (.constant 2 (.columns 10 11) (some .arithmetic)), none, true⟩

/-- Three copies of the characters from the second one on. -/
theorem evaluate_string_repeatedEnd :
    (evaluateChain .empty repeatedEnd.chain).value.length ≤ 2147483647 ∧
      (Expr.string repeatedEnd (.columns 0 14) (some .character)).evaluate .empty =
        ⟨.character "ébébéb", []⟩ := by
  have fits : (evaluateChain .empty repeatedEnd.chain).value.length ≤ 2147483647 := by
    have text : (evaluateChain .empty repeatedEnd.chain).value = "aéb" := by cbv
    rw [text]
    decide
  constructor
  · exact fits
  · rw [Expr.evaluate_string .empty repeatedEnd (.columns 0 14) fits]
    cbv

end ConditionalAssembly
