import Mathlib
import ConditionalAssembly.Evaluation
import ConditionalAssembly.Proofs.Resolution.Tags

/-!
# Operators on the operands they take

The tables only let an operator take operands that it can be applied to.
Applied to values of the domain in its node, it answers with a value of the
domain of its result, unless that is no word or no character.  So a node never
has to replace what its operator answers with by the default of a domain.
-/

namespace ConditionalAssembly

/-! ## Signatures -/

/-- The domain an operator gives for an operand of a domain, when it takes it. -/
def UnaryOperator.gives? : UnaryOperator → Domain → Option Domain
  | .plus, .arithmetic | .minus, .arithmetic | .not, .arithmetic => some .arithmetic
  | .not, .binary => some .binary
  | .upper, .character | .lower, .character | .double, .character => some .character
  | .signed, .arithmetic | .byte, .arithmetic => some .character
  | _, _ => none

/-- The domain an operator gives for two operands of a domain, when it takes them. -/
def BinaryOperator.gives? : BinaryOperator → Domain → Option Domain
  | .add, .arithmetic | .sub, .arithmetic | .mul, .arithmetic | .div, .arithmetic
  | .sla, .arithmetic | .sll, .arithmetic | .sra, .arithmetic | .srl, .arithmetic
  | .and, .arithmetic | .or, .arithmetic | .xor, .arithmetic
  | .andNot, .arithmetic | .orNot, .arithmetic | .xorNot, .arithmetic
  | .index, .character | .find, .character => some .arithmetic
  | .and, .binary | .or, .binary | .xor, .binary
  | .andNot, .binary | .orNot, .binary | .xorNot, .binary => some .binary
  | .concat, .character => some .character
  | .equal, .arithmetic | .notEqual, .arithmetic | .less, .arithmetic | .lessEqual, .arithmetic
  | .greater, .arithmetic | .greaterEqual, .arithmetic
  | .equal, .character | .notEqual, .character | .less, .character | .lessEqual, .character
  | .greater, .character | .greaterEqual, .character => some .binary
  | _, _ => none

/-- Whichever domain compared operands have, the operator of an entry takes its operands and gives
the result that the entry says. -/
def OperatorEntry.isSound {ω : Type} (gives? : ω → Domain → Option Domain)
    (entry : OperatorEntry ω) : Bool :=
  [.arithmetic, .character].all fun compared =>
    gives? entry.operator (entry.operands.domain compared) = some entry.result

/-- The entry says what holds of its operator. -/
def TableEntry.isSound : TableEntry → Bool
  | .unary entry => entry.isSound UnaryOperator.gives?
  | .binary entry => entry.isSound BinaryOperator.gives?

theorem isSound_of_mem_entries {domain : Domain} {entry : TableEntry}
    (isEntry : entry ∈ (OperatorTable.ofDomain domain).entries) : entry.isSound = true := by
  have sound : ∀ entry ∈ (OperatorTable.ofDomain domain).entries, entry.isSound = true := by
    cases domain <;> decide
  exact sound entry isEntry

/-- Operands that are admitted belong to the domain of some that are compared. -/
theorem Operands.Admits.exists_compared {operands : Operands} {given : Domain}
    (admits : operands.Admits given) :
    ∃ compared ∈ [Domain.arithmetic, .character], operands.domain compared = given := by
  cases operands with
  | fixed domain =>
      cases admits
      exact ⟨.arithmetic, List.mem_cons_self .., rfl⟩
  | comparable =>
      rcases admits with rfl | rfl
      · exact ⟨.arithmetic, by decide, rfl⟩
      · exact ⟨.character, by decide, rfl⟩

theorem OperatorEntry.Describes.gives?_eq {ω : Type} {gives? : ω → Domain → Option Domain}
    {entry : OperatorEntry ω} {operator : ω} {result operandDomain : Domain}
    (describes : entry.Describes operator result operandDomain)
    (sound : entry.isSound gives? = true) : gives? operator operandDomain = some result := by
  rcases describes.operands.exists_compared with ⟨compared, isCompared, rfl⟩
  rw [← describes.operator, ← describes.result]
  exact of_decide_eq_true (List.all_eq_true.mp sound compared isCompared)

/-! ## Answers -/

/-- An operator answers with a value of a domain, or it reports an overflow or a number that is no
character. -/
def Answers (result : Domain) : Except Problem Value → Prop
  | .ok value => value.domain = result
  | .error problem => problem = .arithmeticOverflow ∨ ∃ word, problem = .invalidByteValue word

theorem answers_exact (n : Int) :
    Answers .arithmetic (.arithmetic <$> BinaryOperator.exact n) := by
  unfold BinaryOperator.exact
  split
  next => rfl
  next => exact .inl rfl

namespace UnaryOperator

/-- On an operand that it takes, a unary operator answers properly. -/
theorem answers_apply {operator : UnaryOperator} {value : Value} {operand result : Domain}
    (gives : operator.gives? operand = some result) (isOperand : value.domain = operand) :
    Answers result (operator.apply value) := by
  cases isOperand
  cases value with
  | arithmetic word =>
      cases operator with
      | plus | not | signed =>
          cases gives
          rfl
      | minus =>
          cases gives
          exact answers_exact _
      | byte =>
          cases gives
          rw [apply]
          split
          next => rfl
          next => exact .inr ⟨word, rfl⟩
      | upper | lower | double => cases gives
  | binary truth =>
      cases operator with
      | not =>
          cases gives
          rfl
      | _ => cases gives
  | character text =>
      cases operator with
      | upper | lower | double =>
          cases gives
          rfl
      | _ => cases gives

end UnaryOperator

namespace BinaryOperator

theorem answers_div (left right : Int32) :
    Answers .arithmetic (.arithmetic <$> scalar .div left right) := by
  rw [scalar]
  split
  next => rfl
  next => exact answers_exact _

/-- On words that it takes, a binary operator answers properly. -/
theorem answers_apply_arithmetic {operator : BinaryOperator} {left right : Int32} {result : Domain}
    (gives : operator.gives? .arithmetic = some result) :
    Answers result (operator.apply (.arithmetic left) (.arithmetic right)) := by
  cases operator with
  | add | sub | mul | sla =>
      cases gives
      exact answers_exact _
  | div =>
      cases gives
      exact answers_div left right
  | sll | sra | srl | and | or | xor | andNot | orNot | xorNot =>
      cases gives
      rfl
  | equal | notEqual | less | lessEqual | greater | greaterEqual =>
      cases gives
      rfl
  | index | find | concat => cases gives

/-- On truth values that it takes, a binary operator answers properly. -/
theorem answers_apply_binary {operator : BinaryOperator} {left right : Bool} {result : Domain}
    (gives : operator.gives? .binary = some result) :
    Answers result (operator.apply (.binary left) (.binary right)) := by
  cases operator with
  | and | or | xor | andNot | orNot | xorNot =>
      cases gives
      rfl
  | _ => cases gives

/-- On texts that it takes, a binary operator answers properly. -/
theorem answers_apply_character {operator : BinaryOperator} {left right : String} {result : Domain}
    (gives : operator.gives? .character = some result) :
    Answers result (operator.apply (.character left) (.character right)) := by
  cases operator with
  | index | find | concat | equal | notEqual | less | lessEqual | greater | greaterEqual =>
      cases gives
      rfl
  | _ => cases gives

/-- On operands of one domain that it takes, a binary operator answers properly. -/
theorem answers_apply {operator : BinaryOperator} {left right : Value} {operands result : Domain}
    (gives : operator.gives? operands = some result) (isLeft : left.domain = operands)
    (isRight : right.domain = operands) : Answers result (operator.apply left right) := by
  cases isLeft
  cases left with
  | arithmetic leftWord =>
      cases right with
      | arithmetic rightWord => exact answers_apply_arithmetic gives
      | binary _ | character _ => cases isRight
  | binary leftTruth =>
      cases right with
      | binary rightTruth => exact answers_apply_binary gives
      | arithmetic _ | character _ => cases isRight
  | character leftText =>
      cases right with
      | character rightText => exact answers_apply_character gives
      | arithmetic _ | binary _ => cases isRight

end BinaryOperator

/-! ## Nodes -/

/-- Only the value of the first step counts for the second. -/
theorem Reported.bind_congr_value {α β : Type} {first : Reported α} {next other : α → Reported β}
    (same : next first.value = other first.value) : first >>= next = first >>= other := by
  apply Reported.ext
  · rw [value_bind, value_bind, same]
  · rw [diagnostics_bind, diagnostics_bind, same]

namespace Evaluation

/-- What a node gives for the answer of its operator: the value, cut at the greatest length, or
the default of its domain when there is none. -/
def deliver (result : Domain) (range : Range) : Except Problem Value → Reported Value
  | .ok value => limited range value
  | .error problem => .report problem range result.default

theorem domain_limited (range : Range) (value : Value) :
    (limited range value).value.domain = value.domain := by
  unfold limited
  split
  next => split <;> rfl
  next => rfl

/-- The check of a node leaves a proper answer alone. -/
theorem settle_of_answers {result : Domain} {computed : Reported (Except Problem Value)}
    (answers : Answers result computed.value) (range : Range) :
    settle (some result) range computed = computed >>= deliver result range := by
  apply Reported.bind_congr_value
  cases outcome : computed.value with
  | error problem => rfl
  | ok value =>
      rw [outcome] at answers
      have domain : (limited range value).value.domain = result :=
        (domain_limited range value).trans answers
      apply Reported.ext
      · simp [deliver, conform_of_domain domain]
      · simp [deliver, conform_of_domain domain]

end Evaluation

open Evaluation

/-- The operator of a node answers properly for its operands as they are evaluated against a
store, and the node gives what it answers with. -/
def Expr.AnswersProperly (store : Store) : Expr → Prop
  | .unary operator operand range result operandDomain =>
      let computed := do return operator.apply (← operand.evaluateAs store operandDomain)
      Answers result computed.value ∧
        (Expr.unary operator operand range result operandDomain).evaluate store =
          computed >>= deliver result range
  | .binary operator left right range result operandDomain =>
      let computed := do
        let leftValue ← left.evaluateAs store operandDomain
        let rightValue ← right.evaluateAs store operandDomain
        return operator.apply leftValue rightValue
      Answers result computed.value ∧
        (Expr.binary operator left right range result operandDomain).evaluate store =
          computed >>= deliver result range
  | _ => True

/-- An operator from a table of the domains answers properly. -/
theorem Expr.ComesFrom.answersProperly {node : Expr} {domain : Domain}
    (comesFrom : node.ComesFrom (.ofDomain domain)) (store : Store) :
    node.AnswersProperly store := by
  cases node with
  | unary operator operand range result operandDomain =>
      rcases comesFrom with ⟨entry, isEntry, describes⟩
      have gives := describes.gives?_eq (isSound_of_mem_entries isEntry)
      have answers : Answers result (operator.apply (operand.evaluateAs store operandDomain).value) :=
        UnaryOperator.answers_apply gives (operand.domain_evaluateAs store operandDomain)
      constructor
      · exact answers
      · rw [Expr.evaluate, ← settle_of_answers answers]
        simp only [Expr.evaluateAs, bind_assoc]
  | binary operator left right range result operandDomain =>
      rcases comesFrom with ⟨entry, isEntry, describes⟩
      have gives := describes.gives?_eq (isSound_of_mem_entries isEntry)
      have answers : Answers result (operator.apply (left.evaluateAs store operandDomain).value
          (right.evaluateAs store operandDomain).value) :=
        BinaryOperator.answers_apply gives (left.domain_evaluateAs store operandDomain)
          (right.domain_evaluateAs store operandDomain)
      constructor
      · exact answers
      · rw [Expr.evaluate, ← settle_of_answers answers]
        simp only [Expr.evaluateAs, bind_assoc]
  | _ => trivial

/-- Operators are never applied to operands they do not take: wherever an operator stands in a
resolved tree, it answers with a value of the domain of its result, or reports an overflow or a
number that is no character, and the check of its node never replaces what it answers with. -/
theorem operators_answer {expr : Expr} (untagged : ∀ node ∈ expr.nodes true, node.domain? = none)
    (domain : Domain) (store : Store) :
    ∀ node ∈ (expr.resolve domain).value.nodes true, node.AnswersProperly store := by
  intro node isNode
  cases node with
  | unary _ _ _ _ _ | binary _ _ _ _ _ _ =>
      rcases Expr.comesFrom_of_mem_nodes untagged isNode rfl with ⟨table, comesFrom⟩
      exact comesFrom.answersProperly store
  | _ => trivial

/-- What is read from `BYTE 300`. -/
def byteOfThreeHundred : Expr :=
  .unresolved [.symbol "BYTE" (.columns 0 4) none, .constant 300 (.columns 5 8) none] (.columns 0 8)

/-- The operator in `BYTE 300` reports that there is no such character. -/
theorem operators_answer_byte :
    let node := Expr.unary .byte (.constant 300 (.columns 5 8) (some .arithmetic)) (.columns 0 8)
      .character .arithmetic
    Expr.read "BYTE 300" = .ok byteOfThreeHundred ∧
      node ∈ (byteOfThreeHundred.resolve .character).value.nodes true ∧
      node.AnswersProperly .empty ∧
      (node.evaluate .empty).diagnostics = [⟨.invalidByteValue 300, .columns 0 8⟩] := by
  intro node
  have read : Expr.read "BYTE 300" = .ok byteOfThreeHundred := by cbv
  have resolved : (byteOfThreeHundred.resolve .character).value =
      .resolved node false (.columns 0 8) .character := by cbv
  have isNode : node ∈ (byteOfThreeHundred.resolve .character).value.nodes true := by
    rw [resolved]
    exact List.mem_cons_of_mem _ (Expr.mem_nodes_self true node)
  constructor
  · exact read
  constructor
  · exact isNode
  constructor
  · have untagged : AllUntagged (byteOfThreeHundred.nodes true) :=
      (Expr.allFresh_of_read read).untagged
    exact operators_answer untagged .character .empty node isNode
  · cbv

end ConditionalAssembly
