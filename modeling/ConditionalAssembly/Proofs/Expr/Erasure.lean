import ConditionalAssembly.Resolution

/-!
# Expressions without places

Two readings of one text may differ in where its parts stand.  Erasing an
expression moves everything in it to one and the same place, so expressions
that are erased to the same one differ in their places only.

What an expression is made of does not change when it is erased: neither the
words that operators are found by nor what is seen to be a character value.
-/

namespace ConditionalAssembly

/-- The place to which everything in an erased expression is moved. -/
def Range.nowhere : Range :=
  .columns 0 0

@[simp]
theorem Range.union_nowhere : nowhere.union nowhere = nowhere := by
  rw [nowhere, union_columns]
  rfl

mutual

/-- The expression without the places of its parts. -/
def Expr.erase : Expr → Expr
  | .constant value _ domain => .constant value .nowhere domain
  | .symbol name _ domain => .symbol name .nowhere domain
  | .variableTerm reference domain => .variableTerm reference.erase domain
  | .symbolAttribute kind name _ domain => .symbolAttribute kind name .nowhere domain
  | .variableAttribute kind reference _ domain =>
      .variableAttribute kind reference.erase .nowhere domain
  | .string term _ domain => .string term.erase .nowhere domain
  | .unresolved fragments _ => .unresolved (eraseEach fragments) .nowhere
  | .resolved root recovered _ domain => .resolved root.erase recovered .nowhere domain
  | .unary operator operand _ domain operandDomain =>
      .unary operator operand.erase .nowhere domain operandDomain
  | .binary operator left right _ domain operandDomain =>
      .binary operator left.erase right.erase .nowhere domain operandDomain

/-- The reference without the places of its parts. -/
def VariableSymbol.erase : VariableSymbol → VariableSymbol
  | ⟨name, subscript, _⟩ => ⟨name.erase, eraseEach subscript, .nowhere⟩

/-- The name without the places of its parts. -/
def VariableName.erase : VariableName → VariableName
  | .basic name => .basic name
  | .created chain => .created (eraseChain chain)

/-- The string without the places of its parts. -/
def StringTerm.erase : StringTerm → StringTerm
  | ⟨duplication, chain, selection⟩ =>
      ⟨eraseOption duplication, eraseChain chain, selection.erase⟩

/-- The selected part of a string without the places of its bounds. -/
def Selection.erase : Selection → Selection
  | ⟨start, count, toEnd⟩ => ⟨eraseOption start, eraseOption count, toEnd⟩

/-- The piece of text without the places of its parts. -/
def ChainItem.erase : ChainItem → ChainItem
  | .text text => .text text
  | .variableItem reference => .variableItem reference.erase
  | .dot => .dot
  | .equals => .equals
  | .sublist members => .sublist (eraseMembers members)

/-- Every expression of a list without its places. -/
def eraseEach : List Expr → List Expr
  | [] => []
  | expr :: rest => expr.erase :: eraseEach rest

/-- The expression, if there is one, without its places. -/
def eraseOption : Option Expr → Option Expr
  | none => none
  | some expr => some expr.erase

/-- The pieces of a chain without their places. -/
def eraseChain : List ChainItem → List ChainItem
  | [] => []
  | item :: rest => item.erase :: eraseChain rest

/-- The members of a sublist without their places. -/
def eraseMembers : List (List ChainItem) → List (List ChainItem)
  | [] => []
  | chain :: rest => eraseChain chain :: eraseMembers rest

end

theorem eraseEach_eq_map (exprs : List Expr) : eraseEach exprs = exprs.map Expr.erase := by
  induction exprs with
  | nil => rfl
  | cons expr rest ih => rw [eraseEach, ih, List.map_cons]

namespace Expr

@[simp]
theorem range_erase (expr : Expr) : expr.erase.range = .nowhere := by
  cases expr with
  | variableTerm reference domain =>
      rcases reference with ⟨name, subscript, range⟩
      rfl
  | _ => rfl

@[simp]
theorem word?_erase (expr : Expr) : expr.erase.word? = expr.word? := by
  cases expr <;> rfl

@[simp]
theorem yieldsNumber_erase (expr : Expr) : expr.erase.yieldsNumber = expr.yieldsNumber := by
  rw [yieldsNumber, yieldsNumber, word?_erase]

@[simp]
theorem yieldsCharacters_erase (expr : Expr) :
    expr.erase.yieldsCharacters = expr.yieldsCharacters := by
  rw [yieldsCharacters, yieldsCharacters, word?_erase]

/-- An erased expression is seen to be a character value as before. -/
@[simp]
theorem isCharacterOperand_erase : ∀ expr : Expr,
    expr.erase.isCharacterOperand = expr.isCharacterOperand
  | .resolved root _ _ _ => root.isCharacterOperand_erase
  | .unresolved [] _ => rfl
  | .unresolved (first :: rest) _ => by
      have same := first.isCharacterOperand_erase
      simp [erase, eraseEach, eraseEach_eq_map, isCharacterOperand, same, Function.comp_def]
  | .constant _ _ _ | .symbol _ _ _ | .variableTerm _ _ | .symbolAttribute _ _ _ _
  | .variableAttribute _ _ _ _ | .string _ _ _ | .unary _ _ _ _ _ | .binary _ _ _ _ _ _ => rfl

end Expr

end ConditionalAssembly
