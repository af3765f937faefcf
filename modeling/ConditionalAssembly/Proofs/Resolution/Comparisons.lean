import Mathlib
import ConditionalAssembly.Context
import ConditionalAssembly.Proofs.Evaluation.Alike
import ConditionalAssembly.Proofs.Phrase.Spelling
import ConditionalAssembly.Proofs.Resolution.Tree

/-!
# Comparisons of numbers

An arithmetic expression may stand on its own or be compared with another in a
binary expression.  The two uses are read by different operator tables, which
have their lines for signs and for `+ - * /` in common.  Comparisons bind more
loosely than these, so each side of a comparison is read as it would be read
by itself, and is evaluated to the same number.
-/

namespace ConditionalAssembly

/-- The operator is a sign. -/
def UnaryOperator.isSign : UnaryOperator → Bool
  | .plus | .minus => true
  | _ => false

/-- The operator is one of the four basic operations. -/
def BinaryOperator.isBasic : BinaryOperator → Bool
  | .add | .sub | .mul | .div => true
  | _ => false

/-! ## Lines that two tables share -/

/-- A line for a sign or a basic operation stands in the binary table as well, gives a number and
binds tighter than a comparison.  A basic operation is written with one character. -/
def TableEntry.isShared : TableEntry → Bool
  | .unary entry =>
      !entry.operator.isSign || (OperatorTable.binary.unary? entry.name = some entry &&
        entry.result = .arithmetic && entry.priority ≤ 4)
  | .binary entry =>
      !entry.operator.isBasic || (OperatorTable.binary.binary? entry.name = some entry &&
        entry.result = .arithmetic && entry.priority ≤ 4 && !entry.notForm &&
          entry.name.length = 1)

namespace OperatorTable

theorem isShared_of_mem {line : TableEntry} (listed : line ∈ arithmetic.entries) :
    line.isShared = true := by
  have shared : ∀ line ∈ arithmetic.entries, line.isShared = true := by decide
  exact shared line listed

/-- Both tables have the same entry for a sign. -/
theorem sign_shared {entry : OperatorEntry UnaryOperator}
    (listed : .unary entry ∈ arithmetic.entries) (isSign : entry.operator.isSign = true) :
    binary.unary? entry.name = some entry ∧ entry.result = .arithmetic ∧ entry.priority ≤ 4 := by
  have shared := isShared_of_mem listed
  simpa [TableEntry.isShared, isSign, and_assoc] using shared

/-- Both tables have the same entry for a basic operation. -/
theorem basic_shared {entry : OperatorEntry BinaryOperator}
    (listed : .binary entry ∈ arithmetic.entries) (isBasic : entry.operator.isBasic = true) :
    binary.binary? entry.name = some entry ∧ entry.result = .arithmetic ∧ entry.priority ≤ 4 ∧
      entry.notForm = false ∧ entry.name.length = 1 := by
  have shared := isShared_of_mem listed
  simpa [TableEntry.isShared, isBasic, and_assoc] using shared

/-- A word that is no unary operator in the arithmetic table is none in the binary table. -/
theorem unary?_binary_eq_none {name : String} (missing : arithmetic.unary? name = none) :
    binary.unary? name = none := by
  simpa [unary?, arithmetic, binary, unaryLine, binaryLine, logicLine, relationalLine,
    TableEntry.unary?] using missing

end OperatorTable

namespace Phrase

variable {α : Type} {word? : α → Option String}

/-- An operator is a sign or a basic operation. -/
def Part.isBasic : Part α → Bool
  | .operand _ => true
  | .unary entry _ => entry.operator.isSign
  | .binary entry _ => entry.operator.isBasic

/-- An operator at the front of a list that is a basic operation is spelled by one word, which
stands for it in the binary table as well. -/
theorem operatorAt?_binary_of_basic {items : List α} {operator : OperatorAt α}
    (found : operatorAt? .arithmetic word? items = some operator)
    (isBasic : operator.entry.operator.isBasic = true) (behind : List α) :
    operatorAt? .binary word? (items ++ behind) =
      some { operator with rest := operator.rest ++ behind } := by
  obtain ⟨item, rest, word, entry, rfl, spelled, isBinary, alone | joined⟩ := operatorAt?_cases found
  · rcases alone with ⟨rfl, _⟩
    obtain ⟨named, listed⟩ := OperatorTable.name_of_binary? isBinary
    obtain ⟨shared, _, _, plain, _⟩ := OperatorTable.basic_shared listed isBasic
    rw [named] at shared
    exact operatorAt?_of_binary spelled shared (by simp [plain])
  · rcases joined with ⟨next, after, combined, rfl, _, _, isCombined, rfl⟩
    -- A joined operator is written with more than one character.
    obtain ⟨named, listed⟩ := OperatorTable.name_of_binary? isCombined
    obtain ⟨_, _, _, _, short⟩ := OperatorTable.basic_shared listed isBasic
    have long : OperatorTable.notWord.length = 3 := by decide
    rw [named, String.length_append, long] at short
    omega

/-- A list of basic operators is passed in the same way by the binary table, whatever follows. -/
theorem scan_binary_of_basic {due : Due} {items : List α} {parts : List (Part α)}
    (passed : scan .arithmetic word? due items = .ok parts)
    (basic : ∀ part ∈ parts, part.isBasic = true) (behind : List α) :
    scan .binary word? due (items ++ behind) =
      (scan .binary word? .operator behind).map (parts ++ ·) := by
  fun_induction scan .arithmetic word? due items generalizing parts with
  | case1 => cases passed
  | case2 item rest entry isUnary ih =>
      rcases map_eq_ok_iff.mp passed with ⟨more, passedRest, rfl⟩
      obtain ⟨isSign, basicRest⟩ := List.forall_mem_cons.mp basic
      rcases Option.bind_eq_some_iff.mp isUnary with ⟨word, spelled, found⟩
      obtain ⟨named, listed⟩ := OperatorTable.name_of_unary? found
      have shared := (OperatorTable.sign_shared listed isSign).1
      have isUnaryThere : (word? item).bind OperatorTable.binary.unary? = some entry := by
        rw [spelled, Option.bind_some, ← named, shared]
      rw [List.cons_append, scan_of_unary isUnaryThere, ih passedRest basicRest, map_map_result]
      rfl
  | case3 item rest notUnary ih =>
      rcases map_eq_ok_iff.mp passed with ⟨more, passedRest, rfl⟩
      have notUnaryThere : (word? item).bind OperatorTable.binary.unary? = none :=
        Option.bind_eq_none_iff.mpr fun word spelled =>
          OperatorTable.unary?_binary_eq_none (Option.bind_eq_none_iff.mp notUnary word spelled)
      have basicRest := (List.forall_mem_cons.mp basic).2
      rw [List.cons_append, scan_of_not_unary notUnaryThere, ih passedRest basicRest,
        map_map_result]
      rfl
  | case4 =>
      cases passed
      rw [List.nil_append]
      cases scan .binary word? .operator behind <;> rfl
  | case5 => cases passed
  | case6 item after operator found _ ih =>
      rcases map_eq_ok_iff.mp passed with ⟨more, passedRest, rfl⟩
      obtain ⟨isBasic, basicRest⟩ := List.forall_mem_cons.mp basic
      rw [scan_of_operator (operatorAt?_binary_of_basic found isBasic behind),
        ih passedRest basicRest, map_map_result]
      rfl

/-- A phrase of basic operators has none that binds as loosely as a comparison. -/
theorem within_of_basic {phrase : Phrase α} (spelled : phrase.Spelled .arithmetic word?)
    (basic : ∀ part ∈ phrase.parts, part.isBasic = true) : phrase.Within 4 := by
  induction phrase with
  | operand item => exact within_operand item 4
  | unary entry word inner ih =>
      obtain ⟨isSign, basicInner⟩ := List.forall_mem_cons.mp basic
      obtain ⟨_, _, tight⟩ := OperatorTable.sign_shared spelled.1 isSign
      exact within_unary.mpr ⟨tight, ih spelled.2.2 basicInner⟩
  | binary entry words left right _ ihRight =>
      obtain ⟨isBasic, basicRight⟩ := List.forall_mem_cons.mp (List.forall_mem_append.mp basic).2
      obtain ⟨_, _, tight, _⟩ := OperatorTable.basic_shared spelled.1.1 isBasic
      exact within_binary.mpr ⟨tight, ihRight spelled.2.2 basicRight⟩

/-- Two lists of basic operators around a comparison form the comparison of their phrases. -/
theorem ofItems_comparison {left right : List α} {first second : Phrase α}
    (leftFormed : ofItems .arithmetic word? left = .ok first)
    (leftBasic : ∀ part ∈ first.parts, part.isBasic = true)
    (rightFormed : ofItems .arithmetic word? right = .ok second)
    (rightBasic : ∀ part ∈ second.parts, part.isBasic = true)
    {word : α} {entry : OperatorEntry BinaryOperator}
    (isBinary : (word? word).bind OperatorTable.binary.binary? = some entry)
    (loose : entry.priority = 5) (plain : entry.notForm = false) :
    ofItems .binary word? (left ++ word :: right) = .ok (.binary entry [word] first second) := by
  have bounded : OperatorTable.arithmetic.Bounded := OperatorTable.bounded_ofDomain .arithmetic
  have boundedThere : OperatorTable.binary.Bounded := OperatorTable.bounded_ofDomain .binary
  obtain ⟨leftPassed, leftOrdered⟩ := (ofItems_eq_ok_iff bounded).mp leftFormed
  obtain ⟨rightPassed, rightOrdered⟩ := (ofItems_eq_ok_iff bounded).mp rightFormed
  have leftWithin := within_of_basic (spelled_of_ofItems leftFormed) leftBasic
  have rightWithin := within_of_basic (spelled_of_ofItems rightFormed) rightBasic
  rcases Option.bind_eq_some_iff.mp isBinary with ⟨name, spelled, found⟩
  have operator : operatorAt? .binary word? (word :: right) = some ⟨entry, [word], right⟩ :=
    operatorAt?_of_binary spelled found (by simp [plain])
  have rightThere := scan_binary_of_basic rightPassed rightBasic []
  rw [List.append_nil, scan_operator_nil] at rightThere
  apply (ofItems_eq_ok_iff boundedThere).mpr
  constructor
  · rw [scan_binary_of_basic leftPassed leftBasic, scan_of_operator operator, rightThere]
    simp [Except.map, parts]
  · refine ⟨⟨?_, leftOrdered⟩, ?_, rightOrdered⟩
    · intro priority inSpine
      rw [loose]
      exact Int.le_trans (leftWithin priority inSpine) (by decide)
    · exact rightWithin.below (by rw [loose]; decide)

/-- A phrase of basic operators is no character value, unless it is a single operand that is one. -/
theorem isCharacter_of_basic {phrase : Phrase Expr} {word? : Expr → Option String}
    (spelled : phrase.Spelled .arithmetic word?)
    (basic : ∀ part ∈ phrase.parts, part.isBasic = true)
    (number : ∀ operand, phrase = .operand operand → operand.isCharacterOperand = false) :
    phrase.isCharacter = false := by
  cases phrase with
  | operand item => exact number item rfl
  | unary entry word inner =>
      have isSign := (List.forall_mem_cons.mp basic).1
      obtain ⟨_, gives, _⟩ := OperatorTable.sign_shared spelled.1 isSign
      simp [isCharacter, gives]
  | binary entry words left right =>
      have isBasic := (List.forall_mem_cons.mp (List.forall_mem_append.mp basic).2).1
      obtain ⟨_, gives, _⟩ := OperatorTable.basic_shared spelled.1.1 isBasic
      simp [isCharacter, gives]

end Phrase

/-! ## Sides of a comparison -/

/-- A list that is an arithmetic expression of signs and basic operations, and no single operand
that is a character value. -/
structure IsSum (fragments : List Expr) (range : Range) : Prop where
  quiet : ((Expr.unresolved fragments range).resolve .arithmetic).diagnostics = []
  basic : ∀ parts, Phrase.scan .arithmetic Expr.word? .operand fragments = .ok parts →
    ∀ part ∈ parts, part.isBasic = true
  number : ∀ operand, fragments = [operand] → operand.isCharacterOperand = false

/-- How the fragments of a side are read and what they are resolved to. -/
structure IsSum.Reading (fragments : List Expr) (range : Range) (phrase : Phrase Expr) : Prop where
  formed : Phrase.ofItems .arithmetic Expr.word? fragments = .ok phrase
  basic : ∀ part ∈ phrase.parts, part.isBasic = true
  isCharacter : phrase.isCharacter = false
  silent : reportedBy phrase.built = [] ∧ reportedBy (phrase.pending .arithmetic) = []
  whole : (Expr.unresolved fragments range).resolve .arithmetic =
    ⟨.resolved (phrase.tree .arithmetic) false range .arithmetic, []⟩

/-- A side of a comparison is read as a phrase of numbers. -/
theorem IsSum.exists_reading {fragments : List Expr} {range : Range}
    (isSum : IsSum fragments range) : ∃ phrase, IsSum.Reading fragments range phrase := by
  obtain ⟨phrase, formed, value, silent⟩ := exists_phrase_of_quiet isSum.quiet
  have bounded : OperatorTable.arithmetic.Bounded := OperatorTable.bounded_ofDomain .arithmetic
  have basic := isSum.basic _ ((Phrase.ofItems_eq_ok_iff bounded).mp formed).1
  refine ⟨phrase, formed, basic, ?_, ?_, Reported.ext value isSum.quiet⟩
  · apply Phrase.isCharacter_of_basic (Phrase.spelled_of_ofItems formed) basic
    rintro operand rfl
    exact isSum.number operand (Phrase.items_of_ofItems formed).symm
  · rwa [reportedBy_append, List.append_eq_nil_iff] at silent

/-- The entry of a comparison, which binds more loosely than the basic operations. -/
def BinaryOperator.comparisonEntry (operator : BinaryOperator) : OperatorEntry BinaryOperator :=
  ⟨operator.text, 5, operator, false, .comparable, .binary⟩

theorem OperatorTable.binary?_of_isRelational {operator : BinaryOperator}
    (relational : operator.isRelational = true) :
    binary.binary? operator.text = some operator.comparisonEntry := by
  cases operator with
  | equal | notEqual | less | lessEqual | greater | greaterEqual => rfl
  | _ => cases relational

open IsSum in
/-- A comparison of two sums is resolved to the comparison of what they are resolved to. -/
theorem resolve_comparison {operator : BinaryOperator} (relational : operator.isRelational = true)
    {word : Expr} (spelled : word.word? = some operator.text) {left right : List Expr}
    {leftRange rightRange : Range} {first second : Phrase Expr}
    (leftReading : Reading left leftRange first) (rightReading : Reading right rightRange second)
    (range : Range) :
    (Expr.unresolved (left ++ word :: right) range).resolve .binary =
      ⟨.resolved (.binary operator (first.tree .arithmetic) (second.tree .arithmetic)
        ((first.tree .arithmetic).range.union (second.tree .arithmetic).range) .binary .arithmetic)
        false range .binary, []⟩ := by
  have isBinary : word.word?.bind OperatorTable.binary.binary? = some operator.comparisonEntry := by
    rw [spelled, Option.bind_some, OperatorTable.binary?_of_isRelational relational]
  have formed := Phrase.ofItems_comparison leftReading.formed leftReading.basic
    rightReading.formed rightReading.basic isBinary rfl rfl
  have compared : Phrase.binaryDomain operator.comparisonEntry first second = .arithmetic := by
    simp [Phrase.binaryDomain, BinaryOperator.comparisonEntry, Operands.domain,
      leftReading.isCharacter, rightReading.isCharacter]
  rw [Expr.resolve]
  apply (resolveWith_of_phrase formed range).trans
  apply Reported.ext
  · simp only [Phrase.tree, compared]
    rfl
  · have nothing : (Phrase.binary operator.comparisonEntry [word] first second).pending
        OperatorTable.binary.domain = [] := rfl
    simp [Phrase.built, nothing, compared, leftReading.silent, rightReading.silent]

/-! ## Values of comparisons -/

open Evaluation

/-- The relation between two numbers that a relational operator asks for. -/
def BinaryOperator.Relates : BinaryOperator → Int → Int → Prop
  | .equal, a, b => a = b
  | .notEqual, a, b => a ≠ b
  | .less, a, b => a < b
  | .lessEqual, a, b => a ≤ b
  | .greater, a, b => a > b
  | .greaterEqual, a, b => a ≥ b
  | _, _, _ => False

/-- A relational operator answers whether two numbers are so related. -/
theorem BinaryOperator.exists_truth {operator : BinaryOperator}
    (relational : operator.isRelational = true) (a b : Int32) :
    ∃ truth, operator.apply (.arithmetic a) (.arithmetic b) = .ok (.binary truth) ∧
      (truth = true ↔ operator.Relates a.toInt b.toInt) := by
  cases operator with
  | equal => exact ⟨_, rfl, Ordering.isEq_iff_eq_eq.trans compare_eq_iff_eq⟩
  | notEqual => exact ⟨_, rfl, Ordering.isNe_iff_ne_eq.trans (not_congr compare_eq_iff_eq)⟩
  | less => exact ⟨_, rfl, Ordering.isLT_iff_eq_lt.trans compare_lt_iff_lt⟩
  | lessEqual => exact ⟨_, rfl, Std.isLE_compare⟩
  | greater => exact ⟨_, rfl, Ordering.isGT_iff_eq_gt.trans compare_gt_iff_gt⟩
  | greaterEqual => exact ⟨_, rfl, Std.isGE_compare⟩
  | _ => cases relational

theorem Expr.exists_word (store : Store) (expr : Expr) :
    ∃ word, (expr.evaluateAs store .arithmetic).value = .arithmetic word := by
  have isNumber := expr.domain_evaluateAs store .arithmetic
  cases value : (expr.evaluateAs store .arithmetic).value with
  | arithmetic word => exact ⟨word, rfl⟩
  | binary truth => rw [value] at isNumber; cases isNumber
  | character text => rw [value] at isNumber; cases isNumber

/-- A resolved comparison tells whether the numbers of its operands are related, and what is
reported is what is reported for the operands. -/
theorem evaluate_comparison {operator : BinaryOperator} (relational : operator.isRelational = true)
    (store : Store) (left right : Expr) (range inner : Range) :
    ∃ a b truth,
      (left.evaluateAs store .arithmetic).value = .arithmetic a ∧
      (right.evaluateAs store .arithmetic).value = .arithmetic b ∧
      (truth = true ↔ operator.Relates a.toInt b.toInt) ∧
      (Expr.resolved (.binary operator left right inner .binary .arithmetic) false range
          .binary).evaluate store =
        ⟨.binary truth, (left.evaluateAs store .arithmetic).diagnostics ++
          (right.evaluateAs store .arithmetic).diagnostics⟩ := by
  rcases left.exists_word store with ⟨a, isLeft⟩
  rcases right.exists_word store with ⟨b, isRight⟩
  rcases operator.exists_truth relational a b with ⟨truth, applied, holds⟩
  refine ⟨a, b, truth, isLeft, isRight, holds, ?_⟩
  have node : (Expr.binary operator left right inner .binary .arithmetic).evaluate store =
      settle (some .binary) inner (do
        let leftValue ← left.evaluateAs store .arithmetic
        let rightValue ← right.evaluateAs store .arithmetic
        return operator.apply leftValue rightValue) := by
    rw [Expr.evaluate]
    simp only [Expr.evaluateAs, bind_assoc]
  have outer : (Expr.resolved (.binary operator left right inner .binary .arithmetic) false range
      .binary).evaluate store =
        (Expr.binary operator left right inner .binary .arithmetic).evaluate store :=
    Expr.evaluate_resolved_of_domain store rfl range
  have conforms : conform .binary inner (.binary truth) = pure (.binary truth) :=
    conform_of_domain rfl inner
  rw [outer, node]
  apply Reported.ext
  · simp [settle, isLeft, isRight, applied, limited, conforms]
  · simp [settle, isLeft, isRight, applied, limited, conforms]

/-- The operand of a side belongs to a domain that no fragment of the side belongs to another of. -/
theorem IsSum.Reading.domain?_tree {fragments : List Expr} {range : Range} {phrase : Phrase Expr}
    (reading : IsSum.Reading fragments range phrase)
    (own : ∀ fragment ∈ fragments, fragment.domain?.getD .arithmetic = .arithmetic) :
    (phrase.tree .arithmetic).domain?.getD .arithmetic = .arithmetic := by
  have spelled := Phrase.spelled_of_ofItems reading.formed
  have basic := reading.basic
  cases phrase with
  | operand fragment =>
      have listed : fragment ∈ fragments := by
        rw [← Phrase.items_of_ofItems reading.formed]
        exact List.mem_singleton_self fragment
      rw [Phrase.tree, Expr.domain?_resolve, own fragment listed]
      rfl
  | unary entry word inner =>
      have isSign := (List.forall_mem_cons.mp basic).1
      exact (OperatorTable.sign_shared spelled.1 isSign).2.1
  | binary entry words left right =>
      have isBasic := (List.forall_mem_cons.mp (List.forall_mem_append.mp basic).2).1
      exact (OperatorTable.basic_shared spelled.1.1 isBasic).2.1

theorem Context.calculate_of_quiet {expr tree : Expr} {domain : Domain}
    (quiet : expr.resolve domain = ⟨tree, []⟩) (context : Context) :
    context.calculate domain expr = context.record (tree.evaluate context.store) := by
  simp [calculate, resolve, evaluate, record, quiet]

/-- Comparing two sums in a binary expression is comparing the numbers they are by themselves: the
first is calculated, then the second, and nothing else is reported.  If no fragment belongs to
another domain the places of the reports are the same as well. -/
theorem calculate_comparison {operator : BinaryOperator}
    (relational : operator.isRelational = true) {word : Expr}
    (spelled : word.word? = some operator.text) {left right : List Expr}
    {leftRange rightRange : Range} (leftSum : IsSum left leftRange)
    (rightSum : IsSum right rightRange) (range : Range) (context : Context) :
    let first := context.calculate .arithmetic (.unresolved left leftRange)
    let second := first.2.calculate .arithmetic (.unresolved right rightRange)
    let both := context.calculate .binary (.unresolved (left ++ word :: right) range)
    ∃ a b truth,
      first.1 = .arithmetic a ∧ second.1 = .arithmetic b ∧
      both.1 = .binary truth ∧ (truth = true ↔ operator.Relates a.toInt b.toInt) ∧
      both.2.diagnostics.map Diagnostic.problem = second.2.diagnostics.map Diagnostic.problem ∧
      ((∀ fragment ∈ left ++ right, fragment.domain?.getD .arithmetic = .arithmetic) →
        both.2.diagnostics = second.2.diagnostics) := by
  intro first second both
  obtain ⟨leftPhrase, leftReading⟩ := leftSum.exists_reading
  obtain ⟨rightPhrase, rightReading⟩ := rightSum.exists_reading
  obtain ⟨a, b, truth, isLeft, isRight, holds, compared⟩ := evaluate_comparison relational
    context.store (leftPhrase.tree .arithmetic) (rightPhrase.tree .arithmetic) range
    ((leftPhrase.tree .arithmetic).range.union (rightPhrase.tree .arithmetic).range)
  have firstIs := Context.calculate_of_quiet leftReading.whole context
  have secondIs := Context.calculate_of_quiet rightReading.whole first.2
  have bothIs := Context.calculate_of_quiet
    (resolve_comparison relational spelled leftReading rightReading range) context
  have storeIs : first.2.store = context.store := congrArg (·.2.store) firstIs
  rw [storeIs] at secondIs
  rw [compared] at bothIs
  have leftAlike := (leftPhrase.tree .arithmetic).alike_evaluate_resolved context.store leftRange
    .arithmetic
  have rightAlike := (rightPhrase.tree .arithmetic).alike_evaluate_resolved context.store rightRange
    .arithmetic
  have bothReports : both.2.diagnostics = _ := congrArg (·.2.diagnostics) bothIs
  have secondReports : second.2.diagnostics = _ := congrArg (·.2.diagnostics) secondIs
  have firstReports : first.2.diagnostics = _ := congrArg (·.2.diagnostics) firstIs
  dsimp only [Context.record] at bothReports secondReports firstReports
  rw [firstReports, List.append_assoc] at secondReports
  refine ⟨a, b, truth, ?_, ?_, congrArg Prod.fst bothIs, holds, ?_, fun own => ?_⟩
  · exact (congrArg Prod.fst firstIs).trans (leftAlike.value.trans isLeft)
  · exact (congrArg Prod.fst secondIs).trans (rightAlike.value.trans isRight)
  · rw [bothReports, secondReports]
    simp only [List.map_append]
    exact congrArg _ (congrArg₂ (· ++ ·) leftAlike.problems.symm rightAlike.problems.symm)
  · obtain ⟨leftOwn, rightOwn⟩ := List.forall_mem_append.mp own
    have leftNumber := leftReading.domain?_tree leftOwn
    have rightNumber := rightReading.domain?_tree rightOwn
    rw [bothReports, secondReports, Expr.evaluateAs_of_domain context.store leftNumber,
      Expr.evaluateAs_of_domain context.store rightNumber,
      Expr.evaluate_resolved_of_domain context.store leftNumber,
      Expr.evaluate_resolved_of_domain context.store rightNumber]

/-- The fragments of `-&A*2`. -/
def negatedProduct : List Expr :=
  [.symbol "-" (.columns 0 1) none, .variableTerm ⟨.basic "A", [], .columns 1 3⟩ none,
    .symbol "*" (.columns 3 4) none, .constant 2 (.columns 4 5) none]

/-- The fragments of `B+1`. -/
def symbolSum : List Expr :=
  [.symbol "B" (.columns 9 10) none, .symbol "+" (.columns 10 11) none,
    .constant 1 (.columns 11 12) none]

/-- The fragments of `-&A*2` and `B+1` with a word between them. -/
def productAndSum (name : String) : List Expr :=
  negatedProduct ++ .symbol name (.columns 6 8) none :: symbolSum

/-- In `-&A*2 LT B+1` the product and the sum are compared as they are calculated by themselves,
and what neither of them finds is reported for the product first.  The contrary comparison does
not hold. -/
theorem calculate_comparison_product :
    let compared name := Context.calculate {} .binary
      (.unresolved (productAndSum name) (.columns 0 12))
    Expr.read "-&A*2 LT B+1" = .ok (.unresolved (productAndSum "LT") (.columns 0 12)) ∧
      IsSum negatedProduct (.columns 0 5) ∧ IsSum symbolSum (.columns 9 12) ∧
      (compared "LT").1 = .binary true ∧ (compared "GE").1 = .binary false ∧
      (compared "LT").2.diagnostics =
        [⟨.undefinedVariable "A", .columns 1 3⟩, ⟨.undefinedSymbol "B", .columns 9 10⟩] := by
  intro compared
  have productParts : Phrase.scan .arithmetic Expr.word? .operand negatedProduct =
      .ok [.unary ⟨"-", 1, .minus, false, .fixed .arithmetic, .arithmetic⟩
          (.symbol "-" (.columns 0 1) none),
        .operand (.variableTerm ⟨.basic "A", [], .columns 1 3⟩ none),
        .binary ⟨"*", 3, .mul, false, .fixed .arithmetic, .arithmetic⟩
          [.symbol "*" (.columns 3 4) none],
        .operand (.constant 2 (.columns 4 5) none)] := by cbv
  have sumParts : Phrase.scan .arithmetic Expr.word? .operand symbolSum =
      .ok [.operand (.symbol "B" (.columns 9 10) none),
        .binary ⟨"+", 4, .add, false, .fixed .arithmetic, .arithmetic⟩
          [.symbol "+" (.columns 10 11) none],
        .operand (.constant 1 (.columns 11 12) none)] := by cbv
  have product : IsSum negatedProduct (.columns 0 5) := by
    refine ⟨by cbv, fun parts passed => ?_,
      fun _ single => by simpa [negatedProduct] using congrArg List.length single⟩
    cases productParts.symm.trans passed
    simp [Phrase.Part.isBasic, UnaryOperator.isSign, BinaryOperator.isBasic]
  have sum : IsSum symbolSum (.columns 9 12) := by
    refine ⟨by cbv, fun parts passed => ?_,
      fun _ single => by simpa [symbolSum] using congrArg List.length single⟩
    cases sumParts.symm.trans passed
    simp [Phrase.Part.isBasic, BinaryOperator.isBasic]
  have productIs : Context.calculate {} .arithmetic (.unresolved negatedProduct (.columns 0 5)) =
      (.arithmetic 0, ⟨{}, [⟨.undefinedVariable "A", .columns 1 3⟩]⟩) := by cbv
  have sumIs : Context.calculate ⟨{}, [⟨.undefinedVariable "A", .columns 1 3⟩]⟩ .arithmetic
      (.unresolved symbolSum (.columns 9 12)) = (.arithmetic 1, ⟨{},
        [⟨.undefinedVariable "A", .columns 1 3⟩, ⟨.undefinedSymbol "B", .columns 9 10⟩]⟩) := by cbv
  have answers (operator : BinaryOperator) (relational : operator.isRelational = true) :
      ∃ truth, (compared operator.text).1 = .binary truth ∧
        (truth = true ↔ operator.Relates 0 1) ∧
        (compared operator.text).2.diagnostics =
          [⟨.undefinedVariable "A", .columns 1 3⟩, ⟨.undefinedSymbol "B", .columns 9 10⟩] := by
    have spelled : (Expr.symbol operator.text (.columns 6 8) none).word? = some operator.text := rfl
    obtain ⟨a, b, truth, isProduct, isSum, isTruth, holds, _, places⟩ :=
      calculate_comparison relational spelled product sum (.columns 0 12) {}
    rw [productIs] at isProduct isSum places
    rw [sumIs] at isSum places
    cases isProduct
    cases isSum
    exact ⟨truth, isTruth, holds, places (by simp [negatedProduct, symbolSum, Expr.domain?])⟩
  obtain ⟨truth, isLess, less, reported⟩ := answers .less rfl
  obtain ⟨contrary, isNotLess, notLess, _⟩ := answers .greaterEqual rfl
  refine ⟨by cbv, product, sum, ?_, ?_, reported⟩
  · rw [less.mpr Int.zero_lt_one] at isLess
    exact isLess
  · have noLess : ¬ BinaryOperator.greaterEqual.Relates 0 1 := Int.not_le.mpr Int.zero_lt_one
    rw [Bool.eq_false_iff.mpr (notLess.not.mpr noLess)] at isNotLess
    exact isNotLess

end ConditionalAssembly
