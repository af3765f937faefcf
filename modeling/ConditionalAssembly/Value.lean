import ConditionalAssembly.Word
import ConditionalAssembly.Text

/-!
# Domains and values

Every expression belongs to one of three domains: arithmetic, binary or
character.  The domain decides which operators an expression may use and which
value stands in for one that cannot be computed.

A value is a word, a truth value or a text, and so belongs to exactly one
domain.  Values are written in two ways: as a result, and as the text they
contribute when a variable is substituted into a string.
-/

namespace ConditionalAssembly

/-! ## Domains -/

/-- The kinds of value an expression can yield. -/
inductive Domain where
  | arithmetic
  | binary
  | character
  deriving DecidableEq

namespace Domain

/-- The place of a domain in the usual order: arithmetic, binary, character. -/
def index : Domain → Nat
  | .arithmetic => 0
  | .binary => 1
  | .character => 2

/-- The word for a domain in messages. -/
def text : Domain → String
  | .arithmetic => "arithmetic"
  | .binary => "binary"
  | .character => "character"

/-- The names of the domains in lower case, each with what it names. -/
def names : List (String × Domain) :=
  [("a", .arithmetic), ("seta", .arithmetic), ("integer", .arithmetic), ("arithmetic", .arithmetic),
    ("b", .binary), ("setb", .binary), ("boolean", .binary), ("binary", .binary),
    ("c", .character), ("setc", .character), ("character", .character), ("text", .character)]

/-- The domain a name stands for, in either letter case. -/
def ofName? (name : String) : Option Domain :=
  names.lookup (Text.lower name)

/-- The message about a name that stands for no domain. -/
def unknownMessage (name : String) : String :=
  "unknown domain '" ++ name ++ "'"

end Domain

/-! ## Values -/

/-- The result of evaluating an expression. -/
inductive Value where
  | arithmetic (value : Int32)
  | binary (value : Bool)
  | character (value : String)
  deriving DecidableEq

namespace Value

/-- The domain a value belongs to. -/
def domain : Value → Domain
  | .arithmetic _ => .arithmetic
  | .binary _ => .binary
  | .character _ => .character

/-- The word of an arithmetic value. -/
def toWord? : Value → Option Int32
  | .arithmetic value => some value
  | _ => none

/-- The truth value of a binary value. -/
def toBool? : Value → Option Bool
  | .binary value => some value
  | _ => none

/-- The text of a character value. -/
def toText? : Value → Option String
  | .character value => some value
  | _ => none

/-- The digit for a truth value. -/
def bit (value : Bool) : String :=
  if value then "1" else "0"

/-- The text a value contributes where it is substituted: digits without a
sign, a bit, or the text itself. -/
def substituted : Value → String
  | .arithmetic value => Decimal.ofNat value.toInt.natAbs
  | .binary value => bit value
  | .character value => value

/-- A value as it is written in results, character values between quotes. -/
def render : Value → String
  | .arithmetic value => Decimal.ofWord value
  | .binary value => bit value
  | .character value => "'" ++ value ++ "'"

end Value

/-- The value that stands in for one that cannot be computed. -/
def Domain.default : Domain → Value
  | .arithmetic => .arithmetic 0
  | .binary => .binary false
  | .character => .character ""

@[simp]
theorem Domain.domain_default (domain : Domain) : domain.default.domain = domain := by
  cases domain <;> rfl

end ConditionalAssembly
