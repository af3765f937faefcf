import ConditionalAssembly.CommandLine.Options
import ConditionalAssembly.Context
import ConditionalAssembly.Expr.Printer

/-!
# Runs of the program

A run loads the symbols given by the arguments and calculates the expression in
the domain asked for.  It fails when the expression cannot be read or anything
is reported about it.
-/

namespace ConditionalAssembly

open CommandLine in
/-- The context with some assignments and then some definitions loaded. -/
def Context.load (context : Context) (assignments : List Assignment)
    (definitions : List Definition) : Context :=
  { context with
    store := definitions.foldl Definition.apply (assignments.foldl Assignment.apply context.store) }

namespace CommandLine

/-- What a run leaves behind. -/
structure Outcome where
  failed : Bool
  output : String
  /-- The reading error or the diagnostics. -/
  errors : String
  /-- The run was asked to report nothing but its errors. -/
  quiet : Bool
  deriving DecidableEq

/-- Lines of text, each with its end. -/
def lines (texts : List String) : String :=
  texts.foldr (fun text rest => text ++ "\n" ++ rest) ""

/-- The store that the options describe. -/
def Options.store (options : Options) : Store :=
  (Context.load {} options.assignments options.definitions).store

/-- What is printed in front of the value when the options ask for it: the symbols that the
expression depends on, and its tree. -/
def Options.preface (options : Options) (context : Context) (domain : Domain) (expr : Expr) :
    List String :=
  let undefined :=
    if options.dependencies then
      ["undefined: " ++ (expr.undefinedSymbols context.resolvable).render]
    else []
  let tree := if options.tree then [(context.resolve domain expr).1.render] else []
  undefined ++ tree

/-- The outcome of calculating an expression as the options ask. -/
def Options.evaluate (options : Options) (source : String) : Outcome :=
  let context := Context.ofStore options.store
  let domain := options.domain.getD .arithmetic
  let outcome : Except ReadError Outcome := do
    let preface := options.preface context domain (← Expr.read source)
    let (value, context) ← context.calculateSource domain source
    return ⟨!context.diagnostics.isEmpty, lines (preface ++ [value.render]),
      lines (context.diagnostics.map Diagnostic.render), options.quiet⟩
  match outcome with
  | .ok outcome => outcome
  | .error error => ⟨true, "", lines [error.message], options.quiet⟩

/-- The outcome of a run with some arguments. -/
def run (arguments : List String) : Except Rejection Outcome := do
  let (options, source) ← Options.parse arguments
  return options.evaluate source

end CommandLine

end ConditionalAssembly
