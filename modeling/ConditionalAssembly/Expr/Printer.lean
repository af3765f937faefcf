import ConditionalAssembly.Expr
import ConditionalAssembly.Text

/-!
# Printed expressions

A list of fragments is printed between square brackets, an operator node
between parentheses.  A resolved list is printed as its tree, so the
parentheses of the source leave no trace.
-/

namespace ConditionalAssembly

mutual

/-- An expression as it is printed. -/
def Expr.render : Expr → String
  | .constant value _ _ => Decimal.ofWord value
  | .symbol name _ _ => name
  | .variableTerm reference _ => reference.render
  | .symbolAttribute kind name _ _ => kind.letter.toString ++ "'" ++ name
  | .variableAttribute kind reference _ _ => kind.letter.toString ++ "'" ++ reference.render
  | .string ⟨duplication, chain, selection⟩ _ _ =>
      (match duplication with
        | some factor => "(" ++ factor.render ++ ")"
        | none => "") ++
        "'" ++ renderChain chain ++ "'" ++ selection.render
  | .unresolved fragments _ => "[" ++ Text.join " " (renderEach fragments) ++ "]"
  | .resolved root _ _ _ => root.render
  | .unary operator operand _ _ _ => "(" ++ operator.text ++ " " ++ operand.render ++ ")"
  | .binary operator left right _ _ _ =>
      "(" ++ left.render ++ " " ++ operator.text ++ " " ++ right.render ++ ")"

/-- The selected part of a string as it is printed. -/
def Selection.render : Selection → String
  | ⟨none, _, _⟩ => ""
  | ⟨some start, some count, false⟩ => "(" ++ start.render ++ "," ++ count.render ++ ")"
  | ⟨some start, _, _⟩ => "(" ++ start.render ++ ",*)"

/-- A reference to a variable as it is printed. -/
def VariableSymbol.render : VariableSymbol → String
  | ⟨name, subscript, _⟩ =>
      (match name with
        | .basic name => "&" ++ name
        | .created chain => "&(" ++ renderChain chain ++ ")") ++
        match subscript with
        | [] => ""
        | first :: rest => "(" ++ Text.join "," (first.render :: renderEach rest) ++ ")"

/-- A piece of text as it is printed. -/
def ChainItem.render : ChainItem → String
  | .text text => text
  | .variableItem reference => reference.render
  | .dot => "."
  | .equals => "="
  | .sublist members => "(" ++ Text.join "," (renderMembers members) ++ ")"

/-- The pieces of a chain as they are printed, one behind the other. -/
def renderChain : List ChainItem → String
  | [] => ""
  | item :: rest => item.render ++ renderChain rest

/-- The members of a sublist as they are printed. -/
def renderMembers : List (List ChainItem) → List String
  | [] => []
  | chain :: rest => renderChain chain :: renderMembers rest

/-- The expressions of a list as they are printed. -/
def renderEach : List Expr → List String
  | [] => []
  | expr :: rest => expr.render :: renderEach rest

end

end ConditionalAssembly
