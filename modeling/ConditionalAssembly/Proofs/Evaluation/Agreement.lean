import ConditionalAssembly.Evaluation

/-!
# What evaluation asks the store

Evaluation only looks up variables, their numbers of elements and ordinary
symbols.  Stores that answer these questions alike cannot be told apart by
it, whatever was set in them and in which order.
-/

namespace ConditionalAssembly

/-- The stores hold the same variables and the same symbols. -/
structure Store.Agrees (first second : Store) : Prop where
  value? (name : String) (subscript : List Int32) :
    first.value? name subscript = second.value? name subscript
  count? (name : String) : first.count? name = second.count? name
  symbols (name : String) : first.symbolTable[name]? = second.symbolTable[name]?

namespace Evaluation

variable {first second : Store}

theorem symbol_eq_of_agrees (agrees : first.Agrees second) (name : String) :
    symbol first name = symbol second name := by
  rw [symbol, symbol, Store.symbol?, Store.symbol?, agrees.symbols]

theorem attribute_eq_of_agrees (agrees : first.Agrees second) (kind : Attribute) (name : String) :
    first.symbolAttribute kind name = second.symbolAttribute kind name := by
  rw [Store.symbolAttribute, Store.symbolAttribute, Store.symbolAttribute?,
    Store.symbolAttribute?, agrees.symbols]

theorem symbolAttribute_eq_of_agrees (agrees : first.Agrees second) (kind : Attribute)
    (name : String) : symbolAttribute first kind name = symbolAttribute second kind name := by
  rw [symbolAttribute, symbolAttribute, attribute_eq_of_agrees agrees]

theorem variableValue_eq_of_agrees (agrees : first.Agrees second) (name : String)
    (subscript : List Int32) :
    variableValue first name subscript = variableValue second name subscript := by
  rw [variableValue, variableValue, agrees.value?]

theorem textAttribute_eq_of_agrees (agrees : first.Agrees second) (kind : Attribute)
    (text : String) : textAttribute first kind text = textAttribute second kind text := by
  cases kind <;> simp [textAttribute, attribute_eq_of_agrees agrees]

end Evaluation

open Evaluation

variable {first second : Store}

mutual

/-- Stores that hold the same give an expression the same value and diagnostics. -/
theorem Expr.evaluate_eq_of_agrees (agrees : first.Agrees second) :
    ∀ expr : Expr, expr.evaluate first = expr.evaluate second
  | .constant _ _ _ => rfl
  | .symbol name _ _ => by
      rw [Expr.evaluate, Expr.evaluate, symbol_eq_of_agrees agrees]
  | .variableTerm reference _ => by
      rw [Expr.evaluate, Expr.evaluate, reference.evaluate_eq_of_agrees agrees]
  | .symbolAttribute kind name _ _ => by
      rw [Expr.evaluate, Expr.evaluate, symbolAttribute_eq_of_agrees agrees]
  | .variableAttribute kind reference _ _ => by
      rw [Expr.evaluate, Expr.evaluate, reference.evaluateAttribute_eq_of_agrees agrees]
  | .string term range _ => by
      rw [Expr.evaluate, Expr.evaluate, term.evaluate_eq_of_agrees agrees]
  | .unresolved _ _ => rfl
  | .resolved root _ _ _ => by
      rw [Expr.evaluate, Expr.evaluate, root.evaluate_eq_of_agrees agrees]
  | .unary _ operand _ _ _ => by
      rw [Expr.evaluate, Expr.evaluate, operand.evaluate_eq_of_agrees agrees]
  | .binary _ left right _ _ _ => by
      rw [Expr.evaluate, Expr.evaluate, left.evaluate_eq_of_agrees agrees,
        right.evaluate_eq_of_agrees agrees]

theorem VariableSymbol.evaluate_eq_of_agrees (agrees : first.Agrees second) :
    ∀ reference : VariableSymbol, reference.evaluate first = reference.evaluate second
  | ⟨name, subscript, _⟩ => by
      simp only [VariableSymbol.evaluate, name.evaluate_eq_of_agrees agrees,
        evaluateWords_eq_of_agrees agrees subscript, variableValue_eq_of_agrees agrees]

theorem VariableSymbol.evaluateAttribute_eq_of_agrees (agrees : first.Agrees second)
    {kind : Attribute} :
    ∀ reference : VariableSymbol,
      reference.evaluateAttribute first kind = reference.evaluateAttribute second kind
  | ⟨name, subscript, _⟩ => by
      simp only [VariableSymbol.evaluateAttribute, name.evaluate_eq_of_agrees agrees,
        evaluateWords_eq_of_agrees agrees subscript, variableValue_eq_of_agrees agrees,
        textAttribute_eq_of_agrees agrees, agrees.count?]

theorem VariableName.evaluate_eq_of_agrees (agrees : first.Agrees second) :
    ∀ name : VariableName, name.evaluate first = name.evaluate second
  | .basic _ => rfl
  | .created chain => by
      rw [VariableName.evaluate, VariableName.evaluate, evaluateChain_eq_of_agrees agrees chain]

theorem StringTerm.evaluate_eq_of_agrees (agrees : first.Agrees second) {range : Range} :
    ∀ term : StringTerm, term.evaluate first range = term.evaluate second range
  | ⟨none, chain, selection⟩ => by
      simp only [StringTerm.evaluate, evaluateChain_eq_of_agrees agrees chain,
        selection.evaluate_eq_of_agrees agrees]
  | ⟨some factor, chain, selection⟩ => by
      simp only [StringTerm.evaluate, evaluateChain_eq_of_agrees agrees chain,
        selection.evaluate_eq_of_agrees agrees, factor.evaluate_eq_of_agrees agrees]

theorem Selection.evaluate_eq_of_agrees (agrees : first.Agrees second) {text : String} :
    ∀ selection : Selection, selection.evaluate first text = selection.evaluate second text
  | ⟨none, _, _⟩ => rfl
  | ⟨some start, none, _⟩ => by
      rw [Selection.evaluate, Selection.evaluate, start.evaluate_eq_of_agrees agrees]
  | ⟨some start, some count, toEnd⟩ => by
      rw [Selection.evaluate, Selection.evaluate, start.evaluate_eq_of_agrees agrees,
        count.evaluate_eq_of_agrees agrees]

theorem ChainItem.evaluate_eq_of_agrees (agrees : first.Agrees second) :
    ∀ item : ChainItem, item.evaluate first = item.evaluate second
  | .text _ | .dot | .equals => rfl
  | .variableItem reference => by
      simp only [ChainItem.evaluate, reference.evaluate_eq_of_agrees agrees]
  | .sublist members => by
      rw [ChainItem.evaluate, ChainItem.evaluate, evaluateMembers_eq_of_agrees agrees members]

theorem evaluateChain_eq_of_agrees (agrees : first.Agrees second) :
    ∀ chain : List ChainItem, evaluateChain first chain = evaluateChain second chain
  | [] => rfl
  | item :: rest => by
      simp only [evaluateChain, item.evaluate_eq_of_agrees agrees,
        evaluateChain_eq_of_agrees agrees rest]

theorem evaluateMembers_eq_of_agrees (agrees : first.Agrees second) :
    ∀ members : List (List ChainItem),
      evaluateMembers first members = evaluateMembers second members
  | [] => rfl
  | chain :: rest => by
      simp only [evaluateMembers, evaluateChain_eq_of_agrees agrees chain,
        evaluateMembers_eq_of_agrees agrees rest]

theorem evaluateWords_eq_of_agrees (agrees : first.Agrees second) :
    ∀ exprs : List Expr, evaluateWords first exprs = evaluateWords second exprs
  | [] => rfl
  | expr :: rest => by
      simp only [evaluateWords, expr.evaluate_eq_of_agrees agrees,
        evaluateWords_eq_of_agrees agrees rest]

end

end ConditionalAssembly
