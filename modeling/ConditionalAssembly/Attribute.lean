import ConditionalAssembly.Value

/-!
# Attributes

An attribute is asked for by a letter and a quote, as in `L'FIELD`.  Most
attributes describe an ordinary symbol; the count and number attributes
describe variable symbols alone.
-/

namespace ConditionalAssembly

/-- The attributes a term can ask for. -/
inductive Attribute where
  | type
  | length
  | scale
  | integer
  | count
  | number
  | defined
  | opcode
  deriving DecidableEq

namespace Attribute

/-- The attributes in the order of their letters `T L S I K N D O`. -/
def all : List Attribute :=
  [.type, .length, .scale, .integer, .count, .number, .defined, .opcode]

/-- The letter that asks for an attribute. -/
def letter : Attribute → Char
  | .type => 'T'
  | .length => 'L'
  | .scale => 'S'
  | .integer => 'I'
  | .count => 'K'
  | .number => 'N'
  | .defined => 'D'
  | .opcode => 'O'

/-- The attribute a letter of either case asks for. -/
def ofLetter? (letter : Char) : Option Attribute :=
  all.find? fun kind => kind.letter == letter.toUpper

/-- The word for an attribute in messages about tokens. -/
def text : Attribute → String
  | .type => "Type"
  | .length => "Length"
  | .scale => "Scale"
  | .integer => "Integer"
  | .count => "Count"
  | .number => "Number"
  | .defined => "Defined"
  | .opcode => "Opcode"

/-- The domain an attribute's value belongs to. -/
def domain : Attribute → Domain
  | .type | .opcode => .character
  | _ => .arithmetic

/-- The attribute may be asked of an ordinary symbol. -/
def ordinaryAllowed : Attribute → Bool
  | .count | .number => false
  | _ => true

/-- The attribute of an ordinary symbol depends on the symbol's definition. -/
def requiresDefinedSymbol (kind : Attribute) : Bool :=
  kind.ordinaryAllowed

/-- The attribute of a symbol that is not defined. -/
def undefinedValue : Attribute → Value
  | .type | .opcode => .character "U"
  | .length => .arithmetic 1
  | _ => .arithmetic 0

theorem ofLetter?_letter (kind : Attribute) : ofLetter? kind.letter = some kind := by
  cases kind <;> decide

theorem domain_undefinedValue (kind : Attribute) : kind.undefinedValue.domain = kind.domain := by
  cases kind <;> rfl

end Attribute

end ConditionalAssembly
