import ConditionalAssembly.Word

/-!
# Reading errors

A source text that is no expression is refused with one error.  Columns count
bytes from one.  The column zero stands for the end of the text until its
length is known.
-/

namespace ConditionalAssembly

/-- Why a source text is refused. -/
inductive ReadError.Cause where
  | unexpectedToken (token : String)
  | invalidInput (text : String)
  | unexpectedEnd
  | expectedClosingParen
  | literalTooLarge
  deriving DecidableEq

/-- Why and where a source text is refused. -/
structure ReadError where
  cause : ReadError.Cause
  column : Nat
  deriving DecidableEq

namespace ReadError

/-- The wording of a cause. -/
def Cause.message : Cause → String
  | .unexpectedToken token => "Unexpected token '" ++ token ++ "'."
  | .invalidInput text => "Unrecognized input '" ++ text ++ "'."
  | .unexpectedEnd => "Unexpected end of input."
  | .expectedClosingParen => "Expected ')'."
  | .literalTooLarge => "Literal is too large."

/-- An error as it is printed. -/
def message (error : ReadError) : String :=
  "Error at column " ++ Decimal.ofNat error.column ++ ": " ++ error.cause.message

/-- The cause may be that the text has ended. -/
def Cause.atEnd : Cause → Bool
  | .unexpectedEnd | .expectedClosingParen => true
  | _ => false

/-- The error with the end of a text of some length in place of column zero. -/
def atInputEnd (error : ReadError) (length : Nat) : ReadError :=
  if error.column = 0 ∧ error.cause.atEnd then { error with column := length + 1 } else error

end ReadError

end ConditionalAssembly
