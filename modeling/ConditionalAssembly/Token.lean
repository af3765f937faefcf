import ConditionalAssembly.Attribute
import ConditionalAssembly.Text.Escaped

/-!
# Tokens

The tokens that a source text falls into.  Words such as `AND` are identifiers
like any other; which of them are operators depends on the domain.  Names are
held in upper case, the text of a string as it stands between its quotes.

A message about an unexpected token names its kind and, between parentheses,
what it holds.
-/

namespace ConditionalAssembly

/-- A token of a source text. -/
inductive Token where
  /-- A decimal number, as in `42`. -/
  | integer (value : Nat)
  /-- A quoted string, as in `'A&C.B'`. -/
  | string (raw : String)
  /-- A variable symbol, as in `&VAR`. -/
  | variableName (name : String)
  /-- The beginning `&(` of a created name. -/
  | createdName
  /-- An attribute of an ordinary symbol or of a variable, as in `K'&TEXT`. -/
  | attributeOf (kind : Attribute) (isVariable : Bool) (name : String)
  /-- An ordinary symbol or an operator word. -/
  | identifier (name : String)
  | plus
  | minus
  | star
  | slash
  | dot
  | openParen
  | closeParen
  | comma
  deriving DecidableEq

/-- A token and the bytes of the source it stands on. -/
structure PlacedToken where
  token : Token
  start : Nat
  stop : Nat
  deriving DecidableEq

namespace Token

/-- The character that is a token by itself. -/
def ofChar? : Char → Option Token
  | '+' => some .plus
  | '-' => some .minus
  | '*' => some .star
  | '/' => some .slash
  | '.' => some .dot
  | '(' => some .openParen
  | ')' => some .closeParen
  | ',' => some .comma
  | _ => none

/-- A token as it is shown in messages. -/
def describe : Token → String
  | .integer value => "Integer(" ++ Decimal.ofNat value ++ ")"
  | .string raw => "String(" ++ Text.escaped raw ++ ")"
  | .variableName name => "Variable(" ++ Text.escaped name ++ ")"
  | .createdName => "CreatedName"
  | .attributeOf kind isVariable name =>
      "Attribute(AttributeToken \x7b attribute: " ++ kind.text ++ ", variable: " ++
        (if isVariable then "true" else "false") ++ ", name: " ++ Text.escaped name ++ " \x7d)"
  | .identifier name => "Identifier(" ++ Text.escaped name ++ ")"
  | .plus => "Plus"
  | .minus => "Minus"
  | .star => "Star"
  | .slash => "Slash"
  | .dot => "Dot"
  | .openParen => "LParen"
  | .closeParen => "RParen"
  | .comma => "Comma"

end Token

end ConditionalAssembly
