import ConditionalAssembly.Store
import ConditionalAssembly.Text

/-!
# Assignments and definitions in arguments

A variable is set by `NAME=VALUE` or `NAME(INDEX)=VALUE`, an ordinary symbol is
defined by `NAME=VALUE[,TYPE[,LENGTH]]`.  Names are taken in upper case, blanks
around the parts are ignored, and a value between quotes is a text.
-/

namespace ConditionalAssembly.CommandLine

open ConditionalAssembly.Text

/-- Why an argument is no assignment or no definition. -/
inductive ArgumentError where
  | noAssignment (argument : String)
  | invalidSubscript (argument : String)
  | noDefinition (argument : String)
  deriving DecidableEq

/-- The wording of an error. -/
def ArgumentError.message : ArgumentError → String
  | .noAssignment argument => "expected NAME=VALUE, found '" ++ argument ++ "'"
  | .invalidSubscript argument => "invalid subscript in '" ++ argument ++ "'"
  | .noDefinition argument => "expected NAME=VALUE[,TYPE[,LENGTH]], found '" ++ argument ++ "'"

/-! ## Values -/

/-- The characters between a first and a last quote. -/
def betweenQuotes? : List Char → Option (List Char)
  | '\'' :: cs => if cs.getLast? = some '\'' then some cs.dropLast else none
  | _ => none

/-- A text with two quotes in a row read as one. -/
def singleQuotes : List Char → List Char
  | [] => []
  | '\'' :: '\'' :: cs => '\'' :: singleQuotes cs
  | c :: cs => c :: singleQuotes cs

/-- The value an argument denotes: a text between quotes, a number, or else
the text itself. -/
def valueOf (text : String) : Value :=
  let trimmed := trim text
  match betweenQuotes? trimmed.toList with
  | some quoted => .character (String.ofList (singleQuotes quoted))
  | none =>
      match Decimal.toWord? trimmed with
      | some word => .arithmetic word
      | none => .character trimmed

/-! ## Assignments -/

/-- The value given to a variable, or to one element of it. -/
structure Assignment where
  name : String
  index : Option Int32
  value : Value
  deriving DecidableEq

/-- A text without the closing parentheses at its end. -/
def dropClosing (cs : List Char) : List Char :=
  (cs.reverse.dropWhile (· == ')')).reverse

/-- The assignment an argument denotes. -/
def Assignment.parse (argument : String) : Except ArgumentError Assignment :=
  match splitFirst? '=' argument.toList with
  | none => .error (.noAssignment argument)
  | some (target, text) =>
      let value := valueOf (String.ofList text)
      let target := (trimChars target).dropWhile (· == '&')
      match splitFirst? '(' target with
      | none => .ok ⟨nameOf target, none, value⟩
      | some (name, subscript) =>
          match Decimal.toWord? (String.ofList (dropClosing subscript)) with
          | some index => .ok ⟨nameOf name, some index, value⟩
          | none => .error (.invalidSubscript argument)

/-- Sets the variable an assignment names. -/
def Assignment.apply (store : Store) (assignment : Assignment) : Store :=
  match assignment.index with
  | some index => store.setElement assignment.name index assignment.value
  | none => store.setVariable assignment.name assignment.value

/-! ## Definitions -/

/-- The definition given to an ordinary symbol. -/
structure Definition where
  name : String
  symbol : OrdinarySymbol
  deriving DecidableEq

/-- The definition an argument denotes. -/
def Definition.parse (argument : String) : Except ArgumentError Definition :=
  let parsed : Option Definition := do
    let (name, text) ← splitFirst? '=' argument.toList
    let (first, rest) := splitAll ',' text
    let value ← Decimal.toWord? (String.ofList (trimChars first))
    let type ←
      match rest with
      | [] => some 'U'
      | type :: _ => (trimChars type).head?.map Char.toUpper
    let length ←
      match rest with
      | _ :: length :: _ => Decimal.toWord? (String.ofList (trimChars length))
      | _ => some 1
    return ⟨nameOf (trimChars name), { value, type, length }⟩
  match parsed with
  | some definition => .ok definition
  | none => .error (.noDefinition argument)

/-- Defines the ordinary symbol a definition names. -/
def Definition.apply (store : Store) (definition : Definition) : Store :=
  store.defineSymbol definition.name definition.symbol

end ConditionalAssembly.CommandLine
