import ConditionalAssembly.Operator
import ConditionalAssembly.Value

/-!
# Operator tables

A table says, for one domain, which words are operators, how tightly each
binds and what it takes and gives.  A lower priority binds tighter.  One word
may have a unary and a binary entry; of several entries of one kind the first
counts.
-/

namespace ConditionalAssembly

/-- What an operator takes. -/
inductive Operands where
  /-- Operands of one domain. -/
  | fixed (domain : Domain)
  /-- Operands that are compared, either as characters or as numbers. -/
  | comparable
  deriving DecidableEq

/-- The domain of the operands, when compared ones belong to `compared`. -/
def Operands.domain (operands : Operands) (compared : Domain) : Domain :=
  match operands with
  | .fixed domain => domain
  | .comparable => compared

/-- An entry for an operator of type `ω`. -/
structure OperatorEntry (ω : Type) where
  /-- The word that stands for the operator. -/
  name : String
  /-- How loosely the operator binds. -/
  priority : Int
  operator : ω
  /-- A following `NOT` joins with the word into one operator. -/
  notForm : Bool := false
  operands : Operands
  /-- The domain of the result. -/
  result : Domain
  deriving DecidableEq

/-- A line of an operator table. -/
inductive TableEntry where
  | unary (entry : OperatorEntry UnaryOperator)
  | binary (entry : OperatorEntry BinaryOperator)
  deriving DecidableEq

namespace TableEntry

/-- The word that stands for the operator. -/
def name : TableEntry → String
  | .unary entry => entry.name
  | .binary entry => entry.name

/-- The entry, when it is unary. -/
def unary? : TableEntry → Option (OperatorEntry UnaryOperator)
  | .unary entry => some entry
  | .binary _ => none

/-- The entry, when it is binary. -/
def binary? : TableEntry → Option (OperatorEntry BinaryOperator)
  | .unary _ => none
  | .binary entry => some entry

end TableEntry

/-- The operators of one domain. -/
structure OperatorTable where
  domain : Domain
  entries : List TableEntry
  deriving DecidableEq

namespace OperatorTable

/-- The word that joins with a preceding operator. -/
def notWord : String :=
  "NOT"

/-- The priority of a whole list; operators that bind as loosely belong to no term. -/
def loosest : Int :=
  2147483647

/-! ## Looking up words -/

/-- The unary operator a word stands for. -/
def unary? (table : OperatorTable) (name : String) : Option (OperatorEntry UnaryOperator) :=
  (table.entries.filterMap TableEntry.unary?).find? fun entry => entry.name = name

/-- The binary operator a word stands for. -/
def binary? (table : OperatorTable) (name : String) : Option (OperatorEntry BinaryOperator) :=
  (table.entries.filterMap TableEntry.binary?).find? fun entry => entry.name = name

/-- The word stands for an operator of either kind. -/
def isOperator (table : OperatorTable) (name : String) : Bool :=
  table.entries.any fun entry => entry.name = name

/-- A unary operator found by a word has that word for its name. -/
theorem name_of_unary? {table : OperatorTable} {name : String}
    {entry : OperatorEntry UnaryOperator} (found : table.unary? name = some entry) :
    entry.name = name ∧ .unary entry ∈ table.entries := by
  have named := List.find?_some found
  have listed := List.mem_of_find?_eq_some found
  obtain ⟨line, lineListed, isUnary⟩ := List.mem_filterMap.1 listed
  cases line with
  | unary other =>
      cases isUnary
      exact ⟨of_decide_eq_true named, lineListed⟩
  | binary other => exact nomatch isUnary

/-- A binary operator found by a word has that word for its name. -/
theorem name_of_binary? {table : OperatorTable} {name : String}
    {entry : OperatorEntry BinaryOperator} (found : table.binary? name = some entry) :
    entry.name = name ∧ .binary entry ∈ table.entries := by
  have named := List.find?_some found
  have listed := List.mem_of_find?_eq_some found
  obtain ⟨line, lineListed, isBinary⟩ := List.mem_filterMap.1 listed
  cases line with
  | unary other => exact nomatch isBinary
  | binary other =>
      cases isBinary
      exact ⟨of_decide_eq_true named, lineListed⟩

/-! ## The tables of the domains -/

/-- A line for a unary operator written as its usual word. -/
def unaryLine (priority : Int) (operator : UnaryOperator) (operand result : Domain) : TableEntry :=
  .unary ⟨operator.text, priority, operator, false, .fixed operand, result⟩

/-- A line for a binary operator written as its usual word. -/
def binaryLine (priority : Int) (operator : BinaryOperator) (operands result : Domain) :
    TableEntry :=
  .binary ⟨operator.text, priority, operator, false, .fixed operands, result⟩

/-- A line for an operator that a following `NOT` joins. -/
def logicLine (priority : Int) (operator : BinaryOperator) (domain : Domain) : TableEntry :=
  .binary ⟨operator.text, priority, operator, true, .fixed domain, domain⟩

/-- A line for an operator that compares its operands. -/
def relationalLine (priority : Int) (operator : BinaryOperator) : TableEntry :=
  .binary ⟨operator.text, priority, operator, false, .comparable, .binary⟩

/-- The operators of arithmetic expressions. -/
def arithmetic : OperatorTable where
  domain := .arithmetic
  entries :=
    [unaryLine 1 .plus .arithmetic .arithmetic,
      unaryLine 1 .minus .arithmetic .arithmetic,
      binaryLine 2 .index .character .arithmetic,
      binaryLine 2 .find .character .arithmetic,
      binaryLine 3 .mul .arithmetic .arithmetic,
      binaryLine 3 .div .arithmetic .arithmetic,
      binaryLine 4 .add .arithmetic .arithmetic,
      binaryLine 4 .sub .arithmetic .arithmetic,
      unaryLine 5 .not .arithmetic .arithmetic,
      logicLine 6 .and .arithmetic,
      binaryLine 6 .andNot .arithmetic .arithmetic,
      logicLine 7 .or .arithmetic,
      binaryLine 7 .orNot .arithmetic .arithmetic,
      logicLine 8 .xor .arithmetic,
      binaryLine 8 .xorNot .arithmetic .arithmetic,
      binaryLine 9 .sla .arithmetic .arithmetic,
      binaryLine 9 .sll .arithmetic .arithmetic,
      binaryLine 9 .sra .arithmetic .arithmetic,
      binaryLine 9 .srl .arithmetic .arithmetic]

/-- The operators of binary expressions. -/
def binary : OperatorTable where
  domain := .binary
  entries :=
    [unaryLine 1 .plus .arithmetic .arithmetic,
      unaryLine 1 .minus .arithmetic .arithmetic,
      binaryLine 2 .index .character .arithmetic,
      binaryLine 2 .find .character .arithmetic,
      binaryLine 3 .mul .arithmetic .arithmetic,
      binaryLine 3 .div .arithmetic .arithmetic,
      binaryLine 4 .add .arithmetic .arithmetic,
      binaryLine 4 .sub .arithmetic .arithmetic,
      binaryLine 4 .concat .character .character,
      relationalLine 5 .equal,
      relationalLine 5 .notEqual,
      relationalLine 5 .less,
      relationalLine 5 .lessEqual,
      relationalLine 5 .greater,
      relationalLine 5 .greaterEqual,
      unaryLine 6 .not .binary .binary,
      logicLine 7 .and .binary,
      binaryLine 7 .andNot .binary .binary,
      logicLine 8 .or .binary,
      binaryLine 8 .orNot .binary .binary,
      logicLine 9 .xor .binary,
      binaryLine 9 .xorNot .binary .binary]

/-- The operators of character expressions. -/
def character : OperatorTable where
  domain := .character
  entries :=
    [unaryLine 1 .plus .arithmetic .arithmetic,
      unaryLine 1 .minus .arithmetic .arithmetic,
      unaryLine 1 .upper .character .character,
      unaryLine 1 .lower .character .character,
      unaryLine 1 .double .character .character,
      unaryLine 1 .signed .arithmetic .character,
      unaryLine 1 .byte .arithmetic .character,
      binaryLine 2 .concat .character .character]

/-- The operators of a domain. -/
def ofDomain : Domain → OperatorTable
  | .arithmetic => arithmetic
  | .binary => binary
  | .character => character

@[simp]
theorem domain_ofDomain (domain : Domain) : (ofDomain domain).domain = domain := by
  cases domain <;> rfl

end OperatorTable

end ConditionalAssembly
