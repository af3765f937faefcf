import ConditionalAssembly.Diagnostic
import ConditionalAssembly.Operator
import ConditionalAssembly.Text

/-!
# Applying operators to values

Every operator either yields a value or names the one problem that keeps it
from doing so.

Arithmetic on words is exact or reported: a result that is no word is an
overflow.  Division truncates toward zero, and a division by zero yields zero.
Shifts use the low six bits of the amount, read as a number from 0 to 63.

On words the logical operators work bit by bit, on truth values as in logic.
The forms with `NOT` complement their right operand first.
-/

namespace ConditionalAssembly

/-- The problem with two operands of domains an operator does not take. -/
def Problem.mismatch (left right : Value) : Problem :=
  if left.domain = right.domain then .typeMismatch .arithmetic left.domain
  else .typeMismatch left.domain right.domain

namespace BinaryOperator

/-! ## Arithmetic and shifts on words -/

/-- The word denoting an exact result, or an overflow. -/
def exact (n : Int) : Except Problem Int32 :=
  match Word.ofInt? n with
  | some word => .ok word
  | none => .error .arithmeticOverflow

theorem exact_eq_ok_iff {n : Int} {word : Int32} : exact n = .ok word ↔ word.toInt = n := by
  rw [← Word.ofInt?_eq_some_iff]
  unfold exact
  split
  next found => rw [found, Except.ok.injEq, Option.some.injEq]
  next missing => simp [missing]

/-- The number of places a shift moves by: the low six bits of a word. -/
def shiftAmount (amount : Int32) : Nat :=
  amount.toBitVec.toNat % 64

/-- The result of an arithmetic operator or a shift on two words. -/
def scalar (operator : BinaryOperator) (left right : Int32) : Except Problem Int32 :=
  match operator with
  | .add => exact (left.toInt + right.toInt)
  | .sub => exact (left.toInt - right.toInt)
  | .mul => exact (left.toInt * right.toInt)
  | .div => if right = 0 then .ok 0 else exact (left.toInt.tdiv right.toInt)
  | .sla => exact (left.toInt <<< shiftAmount right)
  | .sll => .ok (.ofBitVec (left.toBitVec <<< shiftAmount right))
  | .srl => .ok (.ofBitVec (left.toBitVec >>> shiftAmount right))
  | .sra => .ok (.ofBitVec (left.toBitVec.sshiftRight (shiftAmount right)))
  | _ => .error .invalidOperator

/-! ## Logic -/

/-- The result of a logical operator, on any values with its operations. -/
def connective {β : Type} (and or xor : β → β → β) (not : β → β) (operator : BinaryOperator)
    (left right : β) : Except Problem β :=
  match operator with
  | .and => .ok (and left right)
  | .or => .ok (or left right)
  | .xor => .ok (xor left right)
  | .andNot => .ok (and left (not right))
  | .orNot => .ok (or left (not right))
  | .xorNot => .ok (xor left (not right))
  | _ => .error .invalidOperator

/-- The result of a logical operator on two values. -/
def logic (operator : BinaryOperator) : Value → Value → Except Problem Value
  | .arithmetic left, .arithmetic right =>
      .arithmetic <$> connective (· &&& ·) (· ||| ·) (· ^^^ ·) (~~~ ·) operator left right
  | .binary left, .binary right =>
      .binary <$> connective (· && ·) (· || ·) (· ^^ ·) (! ·) operator left right
  | left, right => .error (.mismatch left right)

/-! ## Comparisons -/

/-- What a relational operator says about the place of one value relative to another. -/
def holdsFor (operator : BinaryOperator) (order : Ordering) : Except Problem Bool :=
  match operator with
  | .equal => .ok order.isEq
  | .notEqual => .ok order.isNe
  | .less => .ok order.isLT
  | .lessEqual => .ok order.isLE
  | .greater => .ok order.isGT
  | .greaterEqual => .ok order.isGE
  | _ => .error .invalidOperator

/-- The result of comparing two values. -/
def comparison (operator : BinaryOperator) : Value → Value → Except Problem Value
  | .arithmetic left, .arithmetic right =>
      .binary <$> operator.holdsFor (compare left.toInt right.toInt)
  | .character left, .character right => .binary <$> operator.holdsFor (Text.order left right)
  | left, right => .error (.mismatch left right)

/-! ## Operators on texts -/

/-- The result of an operator that takes two texts. -/
def textual (operator : BinaryOperator) : Value → Value → Except Problem Value
  | .character left, .character right =>
      match operator with
      | .index => .ok (.arithmetic (Word.ofCount (Text.index left right)))
      | .find => .ok (.arithmetic (Word.ofCount (Text.find left right)))
      | .concat => .ok (.character (left ++ right))
      | _ => .error .invalidOperator
  | left, right => .error (.mismatch left right)

end BinaryOperator

/-! ## All operators -/

namespace UnaryOperator

/-- A text with every quote and every ampersand written twice. -/
def doubled : List Char → List Char
  | [] => []
  | c :: cs => if c = '\'' ∨ c = '&' then c :: c :: doubled cs else c :: doubled cs

/-- The domain an operator misses when it is given a value it does not take. -/
def expected : UnaryOperator → Domain
  | .upper | .lower | .double => .character
  | _ => .arithmetic

/-- The result of a unary operator. -/
def apply : UnaryOperator → Value → Except Problem Value
  | .plus, .arithmetic value => .ok (.arithmetic value)
  | .minus, .arithmetic value => .arithmetic <$> BinaryOperator.exact (-value.toInt)
  | .not, .arithmetic value => .ok (.arithmetic (~~~ value))
  | .not, .binary value => .ok (.binary (!value))
  | .upper, .character text => .ok (.character (Text.upper text))
  | .lower, .character text => .ok (.character (Text.lower text))
  | .double, .character text => .ok (.character (String.ofList (doubled text.toList)))
  | .signed, .arithmetic value => .ok (.character (Decimal.ofWord value))
  | .byte, .arithmetic value =>
      if 0 ≤ value.toInt ∧ value.toInt ≤ 255 then
        .ok (.character (Char.ofNat value.toInt.toNat).toString)
      else .error (.invalidByteValue value)
  | operator, value => .error (.typeMismatch operator.expected value.domain)

end UnaryOperator

namespace BinaryOperator

/-- The result of a binary operator. -/
def apply (operator : BinaryOperator) (left right : Value) : Except Problem Value :=
  match operator with
  | .add | .sub | .mul | .div | .sla | .sll | .sra | .srl =>
      match left, right with
      | .arithmetic leftWord, .arithmetic rightWord =>
          .arithmetic <$> operator.scalar leftWord rightWord
      | _, _ => .error (.mismatch left right)
  | .and | .or | .xor | .andNot | .orNot | .xorNot => operator.logic left right
  | .index | .find | .concat => operator.textual left right
  | .equal | .notEqual | .less | .lessEqual | .greater | .greaterEqual =>
      operator.comparison left right

end BinaryOperator

end ConditionalAssembly
