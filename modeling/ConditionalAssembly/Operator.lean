/-!
# Operators

The operators that expressions are built with, and how each is written.  What
an operator takes and how tightly it binds depends on the domain, and is the
matter of the operator tables.
-/

namespace ConditionalAssembly

/-- The operators with one operand. -/
inductive UnaryOperator where
  | plus
  | minus
  | not
  | upper
  | lower
  | double
  | signed
  | byte
  deriving DecidableEq

/-- The operators with two operands. -/
inductive BinaryOperator where
  | add
  | sub
  | mul
  | div
  | and
  | or
  | xor
  | andNot
  | orNot
  | xorNot
  | sla
  | sll
  | sra
  | srl
  | index
  | find
  | equal
  | notEqual
  | less
  | lessEqual
  | greater
  | greaterEqual
  | concat
  deriving DecidableEq

/-- A unary operator as it is written. -/
def UnaryOperator.text : UnaryOperator → String
  | .plus => "+"
  | .minus => "-"
  | .not => "NOT"
  | .upper => "UPPER"
  | .lower => "LOWER"
  | .double => "DOUBLE"
  | .signed => "SIGNED"
  | .byte => "BYTE"

/-- A binary operator as it is written. -/
def BinaryOperator.text : BinaryOperator → String
  | .add => "+"
  | .sub => "-"
  | .mul => "*"
  | .div => "/"
  | .and => "AND"
  | .or => "OR"
  | .xor => "XOR"
  | .andNot => "AND NOT"
  | .orNot => "OR NOT"
  | .xorNot => "XOR NOT"
  | .sla => "SLA"
  | .sll => "SLL"
  | .sra => "SRA"
  | .srl => "SRL"
  | .index => "INDEX"
  | .find => "FIND"
  | .equal => "EQ"
  | .notEqual => "NE"
  | .less => "LT"
  | .lessEqual => "LE"
  | .greater => "GT"
  | .greaterEqual => "GE"
  | .concat => "."

/-- The operator compares its operands. -/
def BinaryOperator.isRelational : BinaryOperator → Bool
  | .equal | .notEqual | .less | .lessEqual | .greater | .greaterEqual => true
  | _ => false

end ConditionalAssembly
