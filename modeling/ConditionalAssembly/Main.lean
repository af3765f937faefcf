import ConditionalAssembly.CommandLine.Run

/-!
# The command line

The program prints what a run leaves behind and ends with the run's exit code.
-/

namespace ConditionalAssembly.CommandLine

/-- How the program is called. -/
def usage : String :=
  "usage: [-d DOMAIN] [-s NAME=VALUE]... [--symbol NAME=VALUE[,TYPE[,LENGTH]]]... " ++
    "[-t] [--dependencies] [-v]... [-q] EXPRESSION"

/-- The exit code and the text that a rejection is answered with. -/
def Rejection.answer : Rejection → UInt32 × String
  | .helpWanted => (0, usage)
  | .versionWanted => (0, "0.1.0")
  | .invalidValue => (2, "error: invalid value")
  | .missingValue => (2, "error: a value is required")
  | .unneededValue => (2, "error: unexpected value")
  | .unknownArgument => (2, "error: unexpected argument")
  | .repeatedArgument => (2, "error: an argument cannot be used multiple times")
  | .missingExpression => (2, "error: the expression is missing")

end ConditionalAssembly.CommandLine

/-- Runs the program. -/
def main (arguments : List String) : IO UInt32 := do
  match ConditionalAssembly.CommandLine.run arguments with
  | .ok outcome =>
      IO.print outcome.output
      IO.eprint outcome.errors
      return if outcome.failed then 1 else 0
  | .error rejection =>
      let (code, text) := rejection.answer
      if code = 0 then IO.println text else IO.eprintln text
      return code
