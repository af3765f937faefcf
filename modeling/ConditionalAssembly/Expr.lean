import ConditionalAssembly.Attribute
import ConditionalAssembly.Operator
import ConditionalAssembly.Range

/-!
# Expressions

An expression starts as a list of fragments in the order of the source and
becomes a tree when it is resolved to a domain.  Terms carry the domain they
were resolved to, if any; operator nodes and resolved lists always have one.
-/

namespace ConditionalAssembly

mutual

/-- A term, a list of fragments or an operator with its operands. -/
inductive Expr where
  /-- A number. -/
  | constant (value : Int32) (range : Range) (domain : Option Domain)
  /-- An ordinary symbol, or a word that may turn out to be an operator. -/
  | symbol (name : String) (range : Range) (domain : Option Domain)
  /-- A variable symbol. -/
  | variableTerm (reference : VariableSymbol) (domain : Option Domain)
  /-- An attribute of an ordinary symbol. -/
  | symbolAttribute (kind : Attribute) (name : String) (range : Range) (domain : Option Domain)
  /-- An attribute of a variable symbol. -/
  | variableAttribute (kind : Attribute) (reference : VariableSymbol) (range : Range)
      (domain : Option Domain)
  /-- A quoted string. -/
  | string (term : StringTerm) (range : Range) (domain : Option Domain)
  /-- A list of fragments that has not been resolved. -/
  | unresolved (fragments : List Expr) (range : Range)
  /-- A list resolved to a domain; `recovered` when its tree only stands in
  for fragments that form no expression. -/
  | resolved (root : Expr) (recovered : Bool) (range : Range) (domain : Domain)
  /-- A unary operator and its operand. -/
  | unary (operator : UnaryOperator) (operand : Expr) (range : Range)
      (domain operandDomain : Domain)
  /-- A binary operator and its operands. -/
  | binary (operator : BinaryOperator) (left right : Expr) (range : Range)
      (domain operandDomain : Domain)

/-- A reference to a variable, possibly with a subscript. -/
structure VariableSymbol where
  name : VariableName
  subscript : List Expr
  range : Range

/-- The name of a variable, given outright or made up of pieces. -/
inductive VariableName where
  | basic (name : String)
  | created (chain : List ChainItem)

/-- A quoted string with its duplication factor and the part selected from it. -/
structure StringTerm where
  duplication : Option Expr
  chain : List ChainItem
  selection : Selection

/-- The part selected from a string, by a start and either a count or its end. -/
structure Selection where
  start : Option Expr
  count : Option Expr
  toEnd : Bool

/-- A piece of the text of a string or of a created name. -/
inductive ChainItem where
  | text (text : String)
  | variableItem (reference : VariableSymbol)
  | dot
  | equals
  | sublist (members : List (List ChainItem))

end

/-- The pieces of a string or of a created name, in order. -/
abbrev Chain := List ChainItem

instance : Inhabited Expr :=
  ⟨.constant 0 (.columns 0 0) none⟩

/-- The selection of a whole string. -/
def Selection.whole : Selection :=
  ⟨none, none, false⟩

namespace Expr

/-- The range an expression stands on. -/
def range : Expr → Range
  | .variableTerm reference _ => reference.range
  | .constant _ range _ | .symbol _ range _ | .symbolAttribute _ _ range _
  | .variableAttribute _ _ range _ | .string _ range _ | .unresolved _ range
  | .resolved _ _ range _ | .unary _ _ range _ _ | .binary _ _ _ range _ _ => range

/-- The domain an expression was resolved to. -/
def domain? : Expr → Option Domain
  | .constant _ _ domain | .symbol _ _ domain | .variableTerm _ domain
  | .symbolAttribute _ _ _ domain | .variableAttribute _ _ _ domain | .string _ _ domain => domain
  | .unresolved _ _ => none
  | .resolved _ _ _ domain | .unary _ _ _ domain _ | .binary _ _ _ _ domain _ => some domain

/-- The word a fragment consists of. -/
def word? : Expr → Option String
  | .symbol name _ _ => some name
  | _ => none

/-- The expression inside any number of resolved lists. -/
def root : Expr → Expr
  | .resolved root _ _ _ => root.root
  | expr => expr

/-- The expression is not a list that still waits to be resolved. -/
def isResolved : Expr → Bool
  | .unresolved _ _ => false
  | _ => true

end Expr

end ConditionalAssembly
