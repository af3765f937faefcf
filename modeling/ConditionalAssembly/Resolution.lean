import ConditionalAssembly.Expr
import ConditionalAssembly.Phrase
import ConditionalAssembly.Reported

/-!
# Resolution

Resolving an expression to a domain turns its lists of fragments into trees
and marks its terms with the domain.  A list that forms no expression is
replaced by zero after its fault has been reported, so resolution always gives
a tree.  What is resolved already stays as it is.

A list is grouped by the operator table of its domain.  Each operand is then
resolved to the domain its operator takes, at the moment the operator's node
is built, so the diagnostics of operands come in the order of the nodes.
Operands of a comparison are compared as characters when one of them is seen to
be a character value.  A list is judged before it is resolved, by its first
fragment and by the operators among its fragments.
-/

namespace ConditionalAssembly

/-! ## Character operands -/

namespace Expr

/-- The fragment is an operator that takes characters and yields a number. -/
def yieldsNumber (fragment : Expr) : Bool :=
  match fragment.word?.bind OperatorTable.arithmetic.binary? with
  | some entry => entry.operands = .fixed .character && entry.result = .arithmetic
  | none => false

/-- The fragment is a unary operator that yields characters. -/
def yieldsCharacters (fragment : Expr) : Bool :=
  match fragment.word?.bind OperatorTable.character.unary? with
  | some entry => entry.result = .character
  | none => false

/-- The expression is seen to be a character value. -/
def isCharacterOperand : Expr → Bool
  | .string _ _ _ => true
  | .symbolAttribute kind _ _ _ | .variableAttribute kind _ _ _ => kind.domain = .character
  | .unary _ _ _ domain _ | .binary _ _ _ _ domain _ => domain = .character
  | .resolved root _ _ _ => root.isCharacterOperand
  | .unresolved [] _ => false
  | .unresolved (first :: rest) _ =>
      !(first :: rest).any yieldsNumber && (first.isCharacterOperand || first.yieldsCharacters)
  | .constant _ _ _ | .symbol _ _ _ | .variableTerm _ _ => false

end Expr

/-! ## Operands -/

/-- An expression together with the result of resolving it to each domain. -/
structure Operand where
  expr : Expr
  resolve : Domain → Reported Expr

namespace Operand

/-- An operand that resolving does not change. -/
def settled (expr : Expr) : Operand :=
  ⟨expr, fun _ => pure expr⟩

/-- The word an operand consists of. -/
def word? (operand : Operand) : Option String :=
  operand.expr.word?

/-- The node of a unary operator over an operand. -/
def unaryNode (entry : OperatorEntry UnaryOperator) (word operand : Operand) :
    Reported Operand := do
  let domain := entry.operands.domain .arithmetic
  let inner ← operand.resolve domain
  let range := word.expr.range.union inner.range
  return settled (.unary entry.operator inner range entry.result domain)

/-- The domain in which the operands of a comparison are compared. -/
def comparedDomain (left right : Expr) : Domain :=
  if left.isCharacterOperand || right.isCharacterOperand then .character else .arithmetic

/-- The node of a binary operator over its operands. -/
def binaryNode (entry : OperatorEntry BinaryOperator) (left right : Operand) :
    Reported Operand := do
  let domain := entry.operands.domain (comparedDomain left.expr right.expr)
  let leftExpr ← left.resolve domain
  let rightExpr ← right.resolve domain
  let range := leftExpr.range.union rightExpr.range
  return settled (.binary entry.operator leftExpr rightExpr range entry.result domain)

/-- The tree of a phrase, its nodes built in the order in which they are completed. -/
def assemble : Phrase Operand → Reported Operand
  | .operand item => pure item
  | .unary entry word inner => do unaryNode entry word (← assemble inner)
  | .binary entry _ left right => do
      let leftOperand ← assemble left
      let rightOperand ← assemble right
      binaryNode entry leftOperand rightOperand

/-- The trees of phrases, of which only the diagnostics are wanted. -/
def assembleAll : List (Phrase Operand) → Reported Unit
  | [] => pure ()
  | phrase :: rest => do
      let _ ← assemble phrase
      assembleAll rest

/-- Where a fault of a list is reported: a missing operand directly behind the
last fragment, anything else for the whole list. -/
def faultRange (operands : List Operand) (range : Range) : Phrase.Fault → Range
  | .missingOperand =>
      match operands.getLast? with
      | some last => last.expr.range.pastEnd
      | none => range
  | .invalidOperator => range

/-- The problem that a fault of a list is reported as. -/
def faultProblem : Phrase.Fault → Problem
  | .missingOperand => .missingOperand
  | .invalidOperator => .invalidOperator

/-- The resolved list that stands in for fragments that form no expression. -/
def recovery (range : Range) (domain : Domain) : Expr :=
  .resolved (.constant 0 range (some domain)) true range domain

/-- The resolved list of some fragments. -/
def resolveList (table : OperatorTable) (range : Range) (operands : List Operand) :
    Reported Expr :=
  match Phrase.ofItems table word? operands with
  | .ok phrase => do
      let root ← assemble phrase
      let tree ← root.resolve table.domain
      return .resolved tree false range table.domain
  | .error failure => do
      assembleAll failure.completed
      .report (faultProblem failure.fault) (faultRange operands range failure.fault)
        (recovery range table.domain)

end Operand

mutual

/-- Resolves an expression by an operator table. -/
def Expr.resolveWith : Expr → OperatorTable → Reported Expr
  | .constant value range domain, table =>
      return .constant value range (some (domain.getD table.domain))
  | .symbol name range domain, table =>
      return .symbol name range (some (domain.getD table.domain))
  | .symbolAttribute kind name range domain, table =>
      return .symbolAttribute kind name range (some (domain.getD table.domain))
  | .variableAttribute kind reference range domain, table =>
      return .variableAttribute kind reference range (some (domain.getD table.domain))
  | .variableTerm reference none, table => do
      return .variableTerm (← reference.resolve) (some table.domain)
  | .string ⟨duplication, chain, ⟨start, count, toEnd⟩⟩ range none, table => do
      let chain ← resolveChain chain
      let duplication ← resolveNumber duplication
      let start ← resolveNumber start
      let count ← resolveNumber count
      return .string ⟨duplication, chain, ⟨start, count, toEnd⟩⟩ range (some table.domain)
  | .unresolved fragments range, table => Operand.resolveList table range (operandsOf fragments)
  | expr, _ => return expr

/-- The fragments of a list as operands. -/
def operandsOf : List Expr → List Operand
  | [] => []
  | fragment :: rest =>
      ⟨fragment, fun domain => fragment.resolveWith (.ofDomain domain)⟩ :: operandsOf rest

/-- Resolves the pieces of a created name and the subscripts of a variable. -/
def VariableSymbol.resolve : VariableSymbol → Reported VariableSymbol
  | ⟨.basic name, subscript, range⟩ =>
      return ⟨.basic name, ← resolveNumbers subscript, range⟩
  | ⟨.created chain, subscript, range⟩ => do
      let chain ← resolveChain chain
      return ⟨.created chain, ← resolveNumbers subscript, range⟩

/-- Resolves the variables of a piece of text. -/
def ChainItem.resolve : ChainItem → Reported ChainItem
  | .variableItem reference => return .variableItem (← reference.resolve)
  | .sublist members => return .sublist (← resolveMembers members)
  | item => return item

/-- Resolves the variables of a chain. -/
def resolveChain : List ChainItem → Reported (List ChainItem)
  | [] => return []
  | item :: rest => do
      let item ← item.resolve
      return item :: (← resolveChain rest)

/-- Resolves the variables of the members of a sublist. -/
def resolveMembers : List (List ChainItem) → Reported (List (List ChainItem))
  | [] => return []
  | chain :: rest => do
      let chain ← resolveChain chain
      return chain :: (← resolveMembers rest)

/-- Resolves expressions that give numbers. -/
def resolveNumbers : List Expr → Reported (List Expr)
  | [] => return []
  | expr :: rest => do
      let expr ← expr.resolveWith .arithmetic
      return expr :: (← resolveNumbers rest)

/-- Resolves an expression that gives a number, if there is one. -/
def resolveNumber : Option Expr → Reported (Option Expr)
  | none => return none
  | some expr => return some (← expr.resolveWith .arithmetic)

end

/-- Resolves an expression to a domain. -/
def Expr.resolve (expr : Expr) (domain : Domain) : Reported Expr :=
  expr.resolveWith (.ofDomain domain)

theorem operandsOf_eq_map (fragments : List Expr) :
    operandsOf fragments = fragments.map fun fragment => ⟨fragment, fragment.resolve⟩ := by
  induction fragments with
  | nil => rfl
  | cons fragment rest ih =>
      rw [operandsOf, ih]
      rfl

end ConditionalAssembly
