import ConditionalAssembly.Evaluation.Result
import ConditionalAssembly.Expr
import ConditionalAssembly.Operator.Apply

/-!
# Evaluation

An expression is evaluated against a store and always yields a value of the
domain it was resolved to.  Every problem is reported at the range of the node
that meets it, and the node goes on with the default of its domain.  Neither
the value nor the diagnostics depend on anything but the expression and the
store.

A part of a string is selected by the position of its first character, counted
from one, and a count that may run past the end.  An empty selection is valid
wherever it starts.  Copies are cut at the greatest length of a value.
-/

namespace ConditionalAssembly

namespace Evaluation

/-! ## Parts and copies of strings -/

/-- The number of characters from a start to the end of a string. -/
def countToEnd (length : Nat) (start : Int32) : Int32 :=
  let before := Word.clamp (start.toInt - 1)
  Word.clamp (max 0 ((Word.ofCount length).toInt - before.toInt))

/-- The part of a text from a start, with a count or up to the end. -/
def select (text : String) (start : Int32) (count? : Option Int32) : Except Problem String :=
  let count := count?.getD (countToEnd text.length start)
  let invalid := Problem.invalidSubstring start count text.length
  if count.toInt < 0 then .error invalid
  else if count = 0 then .ok ""
  else if start.toInt < 1 ∨ text.length < start.toInt then .error invalid
  else .ok (String.ofList ((text.toList.drop (start.toInt.toNat - 1)).take count.toInt.toNat))

/-- Some copies of a text, cut at the greatest length of a value. -/
def duplicate (range : Range) (text : String) (factor : Int32) :
    Reported (Except Problem String) :=
  match Word.toCount? factor with
  | none => pure (.error (.invalidDuplicationFactor factor))
  | some count =>
      let repeated := String.ofList (Text.copies text.toList Value.maxLength count)
      if text.length * count ≤ Value.maxLength then pure (.ok repeated)
      else .report (.stringTooLong (text.length * count) Value.maxLength) range (.ok repeated)

/-! ## Symbols and variables -/

/-- The value of an ordinary symbol. -/
def symbol (store : Store) (name : String) : Except Problem Value :=
  match store.symbol? name with
  | some value => .ok (.arithmetic value)
  | none => .error (.undefinedSymbol name)

/-- The attribute of an ordinary symbol. -/
def symbolAttribute (store : Store) (kind : Attribute) (name : String) : Except Problem Value :=
  if kind.ordinaryAllowed then .ok (store.symbolAttribute kind name)
  else .error (.attributeNotAllowed kind.letter name)

/-- The value of a variable under a subscript. -/
def variableValue (store : Store) (name : String) (subscript : List Int32) : Except Problem Value :=
  match store.value? name subscript with
  | some value => .ok value
  | none => .error (.undefinedVariable name)

/-- The attribute of a variable that holds a text: its length, what it is made
of, or else an attribute of the ordinary symbol it names. -/
def textAttribute (store : Store) (kind : Attribute) (text : String) : Value :=
  match kind with
  | .count => .arithmetic (Word.ofCount text.length)
  | .type =>
      if text.isEmpty then .character "O"
      else if text.toList.all Char.isDigit then .character "N"
      else store.symbolAttribute .type (Text.upper text)
  | kind => store.symbolAttribute kind (Text.upper text)

/-- The number of an arithmetic value, zero for other values. -/
def word (value : Value) : Int32 :=
  value.toWord?.getD 0

/-- The number an expression at a range gives, when its value was computed. -/
def number (range : Range) (computed : Reported Value) : Reported Int32 := do
  let value ← computed
  return word (← conform .arithmetic range value)

end Evaluation

open Evaluation

mutual

/-- The value of an expression, with the diagnostics met on the way. -/
def Expr.evaluate (store : Store) : Expr → Reported Value
  | .constant value range domain => settle domain range (pure (.ok (.arithmetic value)))
  | .symbol name range domain => settle domain range (pure (symbol store name))
  | .variableTerm reference domain => settle domain reference.range (reference.evaluate store)
  | .symbolAttribute kind name range domain =>
      settle domain range (pure (symbolAttribute store kind name))
  | .variableAttribute kind reference range domain =>
      settle domain range (reference.evaluateAttribute store kind)
  | .string term range domain =>
      settle domain range ((·.map .character) <$> term.evaluate store range)
  | .unresolved _ range => settle none range (pure (.error .unresolvedExpression))
  | .resolved root recovered range domain =>
      settle (some domain) range
        (if recovered then pure (.ok domain.default) else .ok <$> root.evaluate store)
  | .unary operator operand range domain operandDomain =>
      settle (some domain) range do
        let value ← operand.evaluate store
        return operator.apply (← conform operandDomain operand.range value)
  | .binary operator left right range domain operandDomain =>
      settle (some domain) range do
        let leftValue ← left.evaluate store
        let leftValue ← conform operandDomain left.range leftValue
        let rightValue ← right.evaluate store
        let rightValue ← conform operandDomain right.range rightValue
        return operator.apply leftValue rightValue

/-- The value of a variable. -/
def VariableSymbol.evaluate (store : Store) : VariableSymbol → Reported (Except Problem Value)
  | ⟨name, subscript, _⟩ => do
      let name ← name.evaluate store
      return variableValue store name (← evaluateWords store subscript)

/-- An attribute of a variable.  The number attribute ignores the subscript. -/
def VariableSymbol.evaluateAttribute (store : Store) (kind : Attribute) :
    VariableSymbol → Reported (Except Problem Value)
  | ⟨name, subscript, _⟩ => do
      let name ← name.evaluate store
      if kind = .number then
        return .ok (.arithmetic ((store.count? name).getD 0))
      else
        let value := variableValue store name (← evaluateWords store subscript)
        return value.map fun value => textAttribute store kind value.substituted

/-- The name of a variable, in upper case when it is created. -/
def VariableName.evaluate (store : Store) : VariableName → Reported String
  | .basic name => pure name
  | .created chain => Text.upper <$> evaluateChain store chain

/-- The text of a string: its pieces, the part selected, and the copies of it. -/
def StringTerm.evaluate (store : Store) (range : Range) :
    StringTerm → Reported (Except Problem String)
  | ⟨none, chain, selection⟩ => do
      let text ← evaluateChain store chain
      selection.evaluate store text
  | ⟨some factor, chain, selection⟩ => do
      let text ← evaluateChain store chain
      match ← selection.evaluate store text with
      | .error problem => return .error problem
      | .ok selected => do
          duplicate range selected (← number factor.range (factor.evaluate store))

/-- The part of a text that is selected. -/
def Selection.evaluate (store : Store) (text : String) :
    Selection → Reported (Except Problem String)
  | ⟨none, _, _⟩ => return .ok text
  | ⟨some start, none, _⟩ => do
      return select text (← number start.range (start.evaluate store)) none
  | ⟨some start, some count, toEnd⟩ => do
      let first ← number start.range (start.evaluate store)
      if toEnd then
        return select text first none
      else
        return select text first (some (← number count.range (count.evaluate store)))

/-- The text a piece contributes; a variable without a value contributes nothing. -/
def ChainItem.evaluate (store : Store) : ChainItem → Reported String
  | .text text => return text
  | .variableItem reference => do
      match ← reference.evaluate store with
      | .ok value => return value.substituted
      | .error problem => .report problem reference.range ""
  | .dot => return "."
  | .equals => return "="
  | .sublist members => evaluateMembers store members

/-- The text of a chain, its pieces one behind the other. -/
def evaluateChain (store : Store) : List ChainItem → Reported String
  | [] => return ""
  | item :: rest => do
      let text ← item.evaluate store
      return text ++ (← evaluateChain store rest)

/-- The text of the members of a sublist, one behind the other. -/
def evaluateMembers (store : Store) : List (List ChainItem) → Reported String
  | [] => return ""
  | chain :: rest => do
      let text ← evaluateChain store chain
      return text ++ (← evaluateMembers store rest)

/-- The numbers that expressions give. -/
def evaluateWords (store : Store) : List Expr → Reported (List Int32)
  | [] => return []
  | expr :: rest => do
      let word ← number expr.range (expr.evaluate store)
      return word :: (← evaluateWords store rest)

end

/-- The value of an expression where one of a certain domain is required. -/
def Expr.evaluateAs (store : Store) (expected : Domain) (expr : Expr) : Reported Value := do
  conform expected expr.range (← expr.evaluate store)

theorem Expr.domain_evaluateAs (store : Store) (expected : Domain) (expr : Expr) :
    (expr.evaluateAs store expected).value.domain = expected :=
  domain_conform expected expr.range _

end ConditionalAssembly
