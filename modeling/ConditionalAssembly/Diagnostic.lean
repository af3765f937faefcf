import ConditionalAssembly.Range
import ConditionalAssembly.Value

/-!
# Diagnostics

A diagnostic is a problem found while an expression was resolved or evaluated,
with the range of the term it concerns.  Each kind of problem has a code and a
wording.
-/

namespace ConditionalAssembly

/-- What can be wrong with an expression that could be read. -/
inductive Problem where
  | invalidOperator
  | missingOperand
  | typeMismatch (expected found : Domain)
  | arithmeticOverflow
  | undefinedVariable (name : String)
  | undefinedSymbol (name : String)
  | invalidSubstring (start count : Int32) (length : Nat)
  | invalidDuplicationFactor (factor : Int32)
  | invalidByteValue (value : Int32)
  | stringTooLong (length limit : Nat)
  | unresolvedExpression
  | attributeNotAllowed (letter : Char) (name : String)
  deriving DecidableEq

namespace Problem

/-- The code under which a kind of problem is reported. -/
def code : Problem → String
  | .invalidOperator => "CE001"
  | .missingOperand => "CE003"
  | .typeMismatch _ _ => "CE004"
  | .arithmeticOverflow => "CE005"
  | .undefinedVariable _ => "CE006"
  | .undefinedSymbol _ => "CE007"
  | .invalidSubstring _ _ _ => "CE008"
  | .invalidDuplicationFactor _ => "CE009"
  | .invalidByteValue _ => "CE010"
  | .stringTooLong _ _ => "CE011"
  | .unresolvedExpression => "CE012"
  | .attributeNotAllowed _ _ => "CE013"

/-- The wording of a problem. -/
def message : Problem → String
  | .invalidOperator => "operator expected or invalid operator"
  | .missingOperand => "operand expected"
  | .typeMismatch expected found =>
      "expected " ++ expected.text ++ " value, found " ++ found.text ++ " value"
  | .arithmeticOverflow => "arithmetic overflow"
  | .undefinedVariable name => "undefined variable symbol '&" ++ name ++ "'"
  | .undefinedSymbol name => "undefined ordinary symbol '" ++ name ++ "'"
  | .invalidSubstring start count length =>
      "substring (" ++ Decimal.ofWord start ++ "," ++ Decimal.ofWord count ++
        ") is outside a string of length " ++ Decimal.ofNat length
  | .invalidDuplicationFactor factor => "invalid duplication factor " ++ Decimal.ofWord factor
  | .invalidByteValue value =>
      "value " ++ Decimal.ofWord value ++ " is outside the byte range 0..=255"
  | .stringTooLong length limit =>
      "character string of length " ++ Decimal.ofNat length ++ " exceeds " ++
        Decimal.ofNat limit ++ " characters"
  | .unresolvedExpression => "expression evaluated before resolution"
  | .attributeNotAllowed letter name =>
      "attribute " ++ letter.toString ++ "' is not allowed for ordinary symbol '" ++ name ++ "'"

end Problem

/-- A problem and the range of the term it concerns. -/
structure Diagnostic where
  problem : Problem
  range : Range
  deriving DecidableEq

/-- A diagnostic as it is printed. -/
def Diagnostic.render (diagnostic : Diagnostic) : String :=
  diagnostic.problem.code ++ " at " ++ diagnostic.range.render ++ ": " ++
    diagnostic.problem.message

end ConditionalAssembly
