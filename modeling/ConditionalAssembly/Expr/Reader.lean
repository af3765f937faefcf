import ConditionalAssembly.Expr.Quoted
import ConditionalAssembly.Token.Group
import ConditionalAssembly.Token.Lexer

/-!
# From tokens to expressions

The grouped tokens of a source are read into one unresolved list of fragments.
Every group becomes a nested list, unless it directly follows a term that takes
it: a variable takes a subscript, a string takes the bounds of a part, and a
string directly behind a group takes that group as its duplication factor.

The first error from the left is the answer.  An error at the end of the
source carries the column zero until the length of the source is known.
-/

namespace ConditionalAssembly.Reader

/-! ## Errors -/

/-- An error at the beginning of a token. -/
def errorAt (placed : PlacedToken) (cause : ReadError.Cause) : ReadError :=
  ⟨cause, placed.start + 1⟩

/-- An error at a token that does not belong where it stands. -/
def unexpected (placed : PlacedToken) : ReadError :=
  errorAt placed (.unexpectedToken placed.token.describe)

/-- The error of a source that ends before a group is closed. -/
def unclosed : ReadError :=
  ⟨.expectedClosingParen, 0⟩

/-- The parenthesis that closes a group, when it is all that is left of the group. -/
def closing : Contents → Except ReadError PlacedToken
  | .last .nil (some close) => .ok close
  | .last .nil none => .error unclosed
  | .last (.token placed _) _ | .last (.group placed _ _) _ | .comma .nil placed _
  | .comma (.token placed _) _ _ | .comma (.group placed _ _) _ _ =>
      .error (errorAt placed .expectedClosingParen)

/-! ## Terms that may go on -/

/-- A term just read, which a piece directly behind it may extend. -/
inductive Term where
  | list (fragments : List Expr) (range : Range)
  | variableTerm (reference : VariableSymbol)
  | variableAttribute (kind : Attribute) (reference : VariableSymbol) (range : Range)
  | string (duplication : Option Expr) (chain : Chain) (start stop : Nat)

namespace Term

/-- The column directly behind a term. -/
def stop : Term → Nat
  | .list _ range => range.stop.column
  | .variableTerm reference | .variableAttribute _ reference _ => reference.range.stop.column
  | .string _ _ _ stop => stop

/-- The fragment a term is when nothing extends it. -/
def fragment : Term → Expr
  | .list fragments range => .unresolved fragments range
  | .variableTerm reference => .variableTerm reference none
  | .variableAttribute kind reference range => .variableAttribute kind reference range none
  | .string duplication chain start stop =>
      .string ⟨duplication, chain, .whole⟩ (.columns start stop) none

end Term

/-- The fragments behind a term that nothing extends. -/
def flush (pending : Option Term) (fragments : List Expr) : List Expr :=
  match pending with
  | none => fragments
  | some term => term.fragment :: fragments

/-- A variable with the arguments of the group directly behind it for its
subscript.  A group that holds nothing is no argument but none. -/
def withSubscript (reference : VariableSymbol) (group : Contents) (arguments : List Expr)
    (close : PlacedToken) : VariableSymbol :=
  { reference with
    subscript := if group.isVoid then [] else arguments
    range := .columns reference.range.start.column close.stop }

/-- A variable symbol of one token, its name starting in some column. -/
def basicVariable (name : String) (start : Nat) (placed : PlacedToken) : VariableSymbol :=
  ⟨.basic name, [], .columns start placed.stop⟩

/-- A word of one token. -/
def wordOf (name : String) (placed : PlacedToken) : Expr :=
  .symbol name (.columns placed.start placed.stop) none

/-- The list of fragments of an argument.  An empty one stands on the column of
the token that ends it. -/
def argument (fragments : List Expr) (ending : PlacedToken) : Expr :=
  match fragments.head?, fragments.getLast? with
  | some first, some last => .unresolved fragments (first.range.union last.range)
  | _, _ => .unresolved [] (.columns ending.start (ending.start + 1))

/-! ## Reading -/

mutual

/-- Reads the fragments of a run, given the term in front of it that may go on. -/
def readRun : Option Term → Run → Except ReadError (List Expr)
  | pending, .nil => .ok (flush pending [])
  | pending, .group opener contents rest =>
      let adjacent := opener.token = .openParen ∧ pending.map Term.stop = some opener.start
      match pending, decide adjacent with
      | some (.variableTerm reference), true => do
          let (arguments, close) ← readArguments contents
          let reference := withSubscript reference contents arguments close
          return .variableTerm reference none :: (← readRun none rest)
      | some (.variableAttribute kind reference range), true => do
          let (arguments, close) ← readArguments contents
          let reference := withSubscript reference contents arguments close
          return .variableAttribute kind reference (range.union reference.range) none ::
            (← readRun none rest)
      | some (.string duplication chain start _), true => do
          let (selection, close) ← readSelection contents
          return .string ⟨duplication, chain, selection⟩ (.columns start close.stop) none ::
            (← readRun none rest)
      | pending, _ =>
          if opener.token = .createdName then do
            let (chain, close) ← readName contents
            let reference := ⟨.created chain, [], .columns opener.start close.stop⟩
            return flush pending (← readRun (some (.variableTerm reference)) rest)
          else do
            let (fragments, close) ← readList contents
            let list := .list fragments (.columns opener.start close.stop)
            return flush pending (← readRun (some list) rest)
  | pending, .token placed rest =>
      match placed.token with
      | .integer value =>
          match Word.ofInt? value with
          | some word => do
              let range := .columns placed.start placed.stop
              return flush pending (.constant word range none :: (← readRun none rest))
          | none => .error (errorAt placed .literalTooLarge)
      | .plus => do return flush pending (wordOf "+" placed :: (← readRun none rest))
      | .minus => do return flush pending (wordOf "-" placed :: (← readRun none rest))
      | .star => do return flush pending (wordOf "*" placed :: (← readRun none rest))
      | .slash => do return flush pending (wordOf "/" placed :: (← readRun none rest))
      | .dot => do return flush pending (wordOf "." placed :: (← readRun none rest))
      | .identifier name => do return flush pending (wordOf name placed :: (← readRun none rest))
      | .attributeOf kind false name => do
          let range := .columns placed.start placed.stop
          return flush pending (.symbolAttribute kind name range none :: (← readRun none rest))
      | .attributeOf kind true name => do
          let reference := basicVariable name (placed.start + 2) placed
          let range := .columns placed.start placed.stop
          return flush pending
            (← readRun (some (.variableAttribute kind reference range)) rest)
      | .variableName name => do
          let reference := basicVariable name placed.start placed
          return flush pending (← readRun (some (.variableTerm reference)) rest)
      | .string raw =>
          let chain := Chain.ofQuoted (placed.start + 1) raw.toList
          match pending, decide (pending.map Term.stop = some placed.start) with
          | some (.list fragments range), true =>
              let factor := .unresolved fragments range
              readRun (some (.string (some factor) chain range.start.column placed.stop)) rest
          | pending, _ => do
              return flush pending
                (← readRun (some (.string none chain placed.start placed.stop)) rest)
      | .createdName | .openParen | .closeParen | .comma => .error (unexpected placed)

/-- Reads a group of fragments and the parenthesis that closes it. -/
def readList : Contents → Except ReadError (List Expr × PlacedToken)
  | .last run (some close) => do return (← readRun none run, close)
  | .last run none => do
      let _ ← readRun none run
      .error unclosed
  | .comma run placed _ => do
      let _ ← readRun none run
      .error (errorAt placed .expectedClosingParen)

/-- Reads arguments between commas and the parenthesis that closes them. -/
def readArguments : Contents → Except ReadError (List Expr × PlacedToken)
  | .last run (some close) => do return ([argument (← readRun none run) close], close)
  | .last run none => do
      let _ ← readRun none run
      .error unclosed
  | .comma run placed rest => do
      let fragments ← readRun none run
      let (more, close) ← readArguments rest
      return (argument fragments placed :: more, close)

/-- Reads the bounds of a part of a string and the parenthesis that closes them. -/
def readSelection : Contents → Except ReadError (Selection × PlacedToken)
  | .last run (some close) => do
      let _ ← readRun none run
      .error (errorAt close (.unexpectedToken ("Expected ',', found " ++ close.token.describe)))
  | .last run none => do
      let _ ← readRun none run
      .error ⟨.unexpectedEnd, 0⟩
  | .comma run placed rest => do
      let start := argument (← readRun none run) placed
      match rest.afterStar? with
      | some after => do return (⟨some start, none, true⟩, ← closing after)
      | none => do
          let (fragments, close) ← readList rest
          return (⟨some start, some (argument fragments close), false⟩, close)

/-- Reads the pieces of a created name and the parenthesis that closes it. -/
def readName : Contents → Except ReadError (Chain × PlacedToken)
  | .last run (some close) => do return (← readPieces none run, close)
  | .last run none => do
      let _ ← readPieces none run
      .error unclosed
  | .comma run placed _ => do
      let _ ← readPieces none run
      .error (unexpected placed)

/-- Reads the pieces of a created name, given the column directly behind a
variable, where a period only ends the variable's name. -/
def readPieces : Option Nat → Run → Except ReadError Chain
  | _, .nil => .ok []
  | _, .group opener _ _ => .error (unexpected opener)
  | behind, .token placed rest =>
      match placed.token with
      | .identifier name => do return .text name :: (← readPieces none rest)
      | .integer value => do return .text (Decimal.ofNat value) :: (← readPieces none rest)
      | .dot =>
          if behind = some placed.start then readPieces none rest
          else do return .dot :: (← readPieces none rest)
      | .variableName name =>
          let reference := basicVariable name placed.start placed
          match rest with
          | .group opener contents after =>
              if opener.token = .openParen ∧ opener.start = placed.stop then do
                let (arguments, close) ← readArguments contents
                let reference := withSubscript reference contents arguments close
                return .variableItem reference :: (← readPieces (some close.stop) after)
              else .error (unexpected opener)
          | rest => do return .variableItem reference :: (← readPieces (some placed.stop) rest)
      | _ => .error (unexpected placed)

end

/-- Reads the fragments of a whole source. -/
def readSource : Contents → Except ReadError (List Expr)
  | .last run none => readRun none run
  | .last run (some close) => do
      let _ ← readRun none run
      .error (unexpected close)
  | .comma run placed _ => do
      let _ ← readRun none run
      .error (unexpected placed)

end ConditionalAssembly.Reader

namespace ConditionalAssembly

/-- Reads a source text into one unresolved list of fragments. -/
def Expr.read (source : String) : Except ReadError Expr := do
  let tokens ← Token.listOf source
  match Reader.readSource (.ofTokens tokens) with
  | .ok fragments => return .unresolved fragments (.columns 0 source.utf8ByteSize)
  | .error error => .error (error.atInputEnd source.utf8ByteSize)

end ConditionalAssembly
