import ConditionalAssembly.Expr.Quoted
import ConditionalAssembly.Token

/-!
# The grammar of expressions

A derivation says which tokens make up a list of fragments, rule by rule, and
which fragments the list consists of.  Some terms may go on: a variable with a
subscript, a string with the bounds of a part, a list in parentheses with the
string it repeats.  What goes on stands directly behind its term, and what
stands there does go on, so each rule for such a term says what must not follow
it.

A created name is made up of pieces.  A period directly behind a variable is a
piece that only ends the variable's name.
-/

namespace ConditionalAssembly

/-- The columns a token stands on. -/
def PlacedToken.range (placed : PlacedToken) : Range :=
  .columns placed.start placed.stop

/-- The word that a token spells in a list of fragments. -/
def Token.word? : Token → Option String
  | .plus => some "+"
  | .minus => some "-"
  | .star => some "*"
  | .slash => some "/"
  | .dot => some "."
  | .identifier name => some name
  | _ => none

namespace Grammar

/-- The columns of an argument, from its first fragment to its last.  Without a fragment it stands on
the column of the token that ends it. -/
def argumentRange : List Expr → PlacedToken → Range
  | [], ending => .columns ending.start (ending.start + 1)
  | first :: rest, _ =>
      first.range.union ((first :: rest).getLast (List.cons_ne_nil first rest)).range

/-- What a term goes on with, if it stands directly behind the term. -/
inductive Tail where
  | closed
  | parenthesis (stop : Nat)
  | string (stop : Nat)

/-- A token with which a term goes on. -/
def Tail.Takes : Tail → PlacedToken → Prop
  | .closed, _ => False
  | .parenthesis stop, next => next.token = .openParen ∧ next.start = stop
  | .string stop, next => (∃ raw, next.token = .string raw) ∧ next.start = stop

/-- A term does not go on with the tokens that follow. -/
def Tail.EndsBefore (tail : Tail) (rest : List PlacedToken) : Prop :=
  ∀ next ∈ rest.head?, ¬ tail.Takes next

mutual

/-- A list of fragments. -/
inductive Fragments : List PlacedToken → List Expr → Prop where
  | nil : Fragments [] []
  | cons {tokens rest : List PlacedToken} {fragment : Expr} {tail : Tail} {fragments : List Expr} :
      Fragment tokens fragment tail → tail.EndsBefore rest → Fragments rest fragments →
      Fragments (tokens ++ rest) (fragment :: fragments)

/-- A fragment, and what it would go on with. -/
inductive Fragment : List PlacedToken → Expr → Tail → Prop where
  | integer {placed : PlacedToken} {value : Nat} :
      placed.token = .integer value → value < 2147483648 →
      Fragment [placed] (.constant (.ofInt value) placed.range none) .closed
  | word {placed : PlacedToken} {name : String} :
      placed.token.word? = some name →
      Fragment [placed] (.symbol name placed.range none) .closed
  | symbolAttribute {placed : PlacedToken} {kind : Attribute} {name : String} :
      placed.token = .attributeOf kind false name →
      Fragment [placed] (.symbolAttribute kind name placed.range none) .closed
  | variableAttribute {placed : PlacedToken} {kind : Attribute} {name : String}
      {subscript : List PlacedToken} {reference : VariableSymbol} {tail : Tail} :
      placed.token = .attributeOf kind true name →
      Subscripted ⟨.basic name, [], .columns (placed.start + 2) placed.stop⟩ subscript reference
        tail →
      Fragment (placed :: subscript)
        (.variableAttribute kind reference (placed.range.union reference.range) none) tail
  | variableTerm {tokens subscript : List PlacedToken} {bare reference : VariableSymbol}
      {tail : Tail} :
      Variable tokens bare → Subscripted bare subscript reference tail →
      Fragment (tokens ++ subscript) (.variableTerm reference none) tail
  | string {tokens bounds : List PlacedToken} {duplication : Option Expr} {chain : Chain}
      {start stop last : Nat} {selection : Selection} {tail : Tail} :
      Quoted tokens duplication chain start stop → Selected stop bounds selection last tail →
      Fragment (tokens ++ bounds)
        (.string ⟨duplication, chain, selection⟩ (.columns start last) none) tail
  | group {opener close : PlacedToken} {tokens : List PlacedToken} {fragments : List Expr} :
      opener.token = .openParen → Fragments tokens fragments → close.token = .closeParen →
      Fragment (opener :: (tokens ++ [close]))
        (.unresolved fragments (.columns opener.start close.stop)) (.string close.stop)

/-- A variable without its subscript. -/
inductive Variable : List PlacedToken → VariableSymbol → Prop where
  | basic {placed : PlacedToken} {name : String} :
      placed.token = .variableName name →
      Variable [placed] ⟨.basic name, [], placed.range⟩
  | created {opener close : PlacedToken} {tokens : List PlacedToken} {chain : Chain} :
      opener.token = .createdName → Pieces none tokens chain → close.token = .closeParen →
      Variable (opener :: (tokens ++ [close]))
        ⟨.created chain, [], .columns opener.start close.stop⟩

/-- The subscript of a variable, if there is one, and the variable with it.  Between parentheses
that hold nothing there is no argument. -/
inductive Subscripted : VariableSymbol → List PlacedToken → VariableSymbol → Tail → Prop where
  | none {bare : VariableSymbol} :
      Subscripted bare [] bare (.parenthesis bare.range.stop.column)
  | empty {bare : VariableSymbol} {opener close : PlacedToken} :
      opener.token = .openParen → opener.start = bare.range.stop.column →
      close.token = .closeParen →
      Subscripted bare [opener, close]
        ⟨bare.name, [], .columns bare.range.start.column close.stop⟩ .closed
  | some {bare : VariableSymbol} {opener : PlacedToken} {tokens : List PlacedToken}
      {arguments : List Expr} {stop : Nat} :
      opener.token = .openParen → opener.start = bare.range.stop.column →
      Arguments tokens arguments stop → tokens.length ≠ 1 →
      Subscripted bare (opener :: tokens)
        ⟨bare.name, arguments, .columns bare.range.start.column stop⟩ .closed

/-- Arguments with the parenthesis that closes them, and where that ends. -/
inductive Arguments : List PlacedToken → List Expr → Nat → Prop where
  | last {tokens : List PlacedToken} {fragments : List Expr} {close : PlacedToken} :
      Fragments tokens fragments → close.token = .closeParen →
      Arguments (tokens ++ [close]) [.unresolved fragments (argumentRange fragments close)]
        close.stop
  | comma {tokens rest : List PlacedToken} {fragments arguments : List Expr}
      {comma : PlacedToken} {stop : Nat} :
      Fragments tokens fragments → comma.token = .comma → Arguments rest arguments stop →
      Arguments (tokens ++ comma :: rest)
        (.unresolved fragments (argumentRange fragments comma) :: arguments) stop

/-- A quoted text, with the list in front of it that repeats it. -/
inductive Quoted : List PlacedToken → Option Expr → Chain → Nat → Nat → Prop where
  | once {placed : PlacedToken} {raw : String} :
      placed.token = .string raw →
      Quoted [placed] none (.ofQuoted (placed.start + 1) raw.toList) placed.start placed.stop
  | repeated {opener close placed : PlacedToken} {tokens : List PlacedToken}
      {fragments : List Expr} {raw : String} :
      opener.token = .openParen → Fragments tokens fragments → close.token = .closeParen →
      placed.token = .string raw → placed.start = close.stop →
      Quoted (opener :: (tokens ++ [close]) ++ [placed])
        (some (.unresolved fragments (.columns opener.start close.stop)))
        (.ofQuoted (placed.start + 1) raw.toList) opener.start placed.stop

/-- The bounds of a part of a string, if there are any, and where the string ends with them. -/
inductive Selected : Nat → List PlacedToken → Selection → Nat → Tail → Prop where
  | whole {stop : Nat} : Selected stop [] .whole stop (.parenthesis stop)
  | toEnd {stop : Nat} {opener comma star close : PlacedToken} {tokens : List PlacedToken}
      {fragments : List Expr} :
      opener.token = .openParen → opener.start = stop → Fragments tokens fragments →
      comma.token = .comma → star.token = .star → close.token = .closeParen →
      Selected stop (opener :: (tokens ++ [comma, star, close]))
        ⟨some (.unresolved fragments (argumentRange fragments comma)), none, true⟩ close.stop
        .closed
  | counted {stop : Nat} {opener comma close : PlacedToken} {tokens more : List PlacedToken}
      {fragments others : List Expr} :
      opener.token = .openParen → opener.start = stop → Fragments tokens fragments →
      comma.token = .comma → Fragments more others → (∀ first ∈ more.head?, first.token ≠ .star) →
      close.token = .closeParen →
      Selected stop (opener :: (tokens ++ comma :: (more ++ [close])))
        ⟨some (.unresolved fragments (argumentRange fragments comma)),
          some (.unresolved others (argumentRange others close)), false⟩ close.stop .closed

/-- Pieces of a created name, directly behind a variable that ends in some column or not. -/
inductive Pieces : Option Nat → List PlacedToken → Chain → Prop where
  | nil {behind : Option Nat} : Pieces behind [] []
  | identifier {behind : Option Nat} {placed : PlacedToken} {name : String}
      {rest : List PlacedToken} {chain : Chain} :
      placed.token = .identifier name → Pieces none rest chain →
      Pieces behind (placed :: rest) (.text name :: chain)
  | integer {behind : Option Nat} {placed : PlacedToken} {value : Nat}
      {rest : List PlacedToken} {chain : Chain} :
      placed.token = .integer value → Pieces none rest chain →
      Pieces behind (placed :: rest) (.text (Decimal.ofNat value) :: chain)
  | period {behind : Option Nat} {placed : PlacedToken} {rest : List PlacedToken} {chain : Chain} :
      placed.token = .dot → behind ≠ some placed.start → Pieces none rest chain →
      Pieces behind (placed :: rest) (.dot :: chain)
  | endOfName {placed : PlacedToken} {rest : List PlacedToken} {chain : Chain} :
      placed.token = .dot → Pieces none rest chain →
      Pieces (some placed.start) (placed :: rest) chain
  | variableItem {behind : Option Nat} {placed : PlacedToken} {name : String}
      {subscript rest : List PlacedToken} {reference : VariableSymbol} {tail : Tail}
      {chain : Chain} :
      placed.token = .variableName name →
      Subscripted ⟨.basic name, [], placed.range⟩ subscript reference tail →
      tail.EndsBefore rest → Pieces (some reference.range.stop.column) rest chain →
      Pieces behind (placed :: (subscript ++ rest)) (.variableItem reference :: chain)

end

end Grammar

end ConditionalAssembly
