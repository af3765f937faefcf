import ConditionalAssembly.Dependency
import ConditionalAssembly.Evaluation
import ConditionalAssembly.Expr.Reader
import ConditionalAssembly.Resolution

/-!
# Contexts

A context is a store together with the diagnostics reported so far.
Resolving and evaluating an expression against a context appends to the
diagnostics and leaves the store alone.  A source text is calculated by reading
it and then doing both.
-/

namespace ConditionalAssembly

/-- A store and the diagnostics reported against it, in order. -/
structure Context where
  store : Store := {}
  diagnostics : List Diagnostic := []

namespace Context

/-- The context of a store about which nothing has been reported. -/
def ofStore (store : Store) : Context :=
  ⟨store, []⟩

/-- The value of a result, and the context with the result's diagnostics added. -/
def record {α : Type} (context : Context) (result : Reported α) : α × Context :=
  (result.value, { context with diagnostics := context.diagnostics ++ result.diagnostics })

/-- Resolves an expression by an operator table. -/
def resolveWith (context : Context) (table : OperatorTable) (expr : Expr) : Expr × Context :=
  context.record (expr.resolveWith table)

/-- Resolves an expression to a domain. -/
def resolve (context : Context) (domain : Domain) (expr : Expr) : Expr × Context :=
  context.record (expr.resolve domain)

/-- Evaluates an expression. -/
def evaluate (context : Context) (expr : Expr) : Value × Context :=
  context.record (expr.evaluate context.store)

/-- Evaluates an expression where a value of a certain domain is required. -/
def evaluateAs (context : Context) (domain : Domain) (expr : Expr) : Value × Context :=
  context.record (expr.evaluateAs context.store domain)

/-- Resolves an expression to a domain and evaluates its tree. -/
def calculate (context : Context) (domain : Domain) (expr : Expr) : Value × Context :=
  let resolved := context.resolve domain expr
  resolved.2.evaluate resolved.1

/-- Reads a source text, resolves it to a domain and evaluates it where a value of that domain
is required. -/
def calculateSource (context : Context) (domain : Domain) (source : String) :
    Except ReadError (Value × Context) := do
  let expr ← Expr.read source
  let (tree, context) := context.resolve domain expr
  return context.evaluateAs domain tree

/-- The diagnostics reported so far, and the context without them. -/
def takeDiagnostics (context : Context) : List Diagnostic × Context :=
  (context.diagnostics, { context with diagnostics := [] })

/-- An attribute of an ordinary symbol is known as soon as the symbol is defined. -/
def resolvable (context : Context) (_kind : Attribute) (name : String) : Bool :=
  context.store.defines name

@[simp]
theorem store_record {α : Type} (context : Context) (result : Reported α) :
    (context.record result).2.store = context.store :=
  rfl

@[simp]
theorem diagnostics_record {α : Type} (context : Context) (result : Reported α) :
    (context.record result).2.diagnostics = context.diagnostics ++ result.diagnostics :=
  rfl

end Context

end ConditionalAssembly
