import ConditionalAssembly.Expr

/-!
# The nodes of an expression

The nodes of an expression are the expression itself and every expression
inside it: operands, fragments, subscripts, duplication factors, the bounds of
parts, and what the variables in names and strings hold.  The variable that an
attribute belongs to is searched only on demand.  The subscripts, factors and
bounds of one term are its numbers.

Of the nodes of an expression, only subjects of attributes hold further ones.
-/

namespace ConditionalAssembly

mutual

/-- An expression and the expressions inside it, with or without those inside
the subjects of attributes. -/
def Expr.nodes (subjects : Bool) : Expr → List Expr
  | .constant value range domain => [.constant value range domain]
  | .symbol name range domain => [.symbol name range domain]
  | .variableTerm reference domain => .variableTerm reference domain :: reference.nodes subjects
  | .symbolAttribute kind name range domain => [.symbolAttribute kind name range domain]
  | .variableAttribute kind reference range domain =>
      .variableAttribute kind reference range domain ::
        if subjects then reference.nodes subjects else []
  | .string term range domain => .string term range domain :: term.nodes subjects
  | .unresolved fragments range => .unresolved fragments range :: nodesOfEach subjects fragments
  | .resolved root recovered range domain =>
      .resolved root recovered range domain :: root.nodes subjects
  | .unary operator operand range domain operandDomain =>
      .unary operator operand range domain operandDomain :: operand.nodes subjects
  | .binary operator left right range domain operandDomain =>
      .binary operator left right range domain operandDomain ::
        (left.nodes subjects ++ right.nodes subjects)

/-- The expressions inside a reference to a variable. -/
def VariableSymbol.nodes (subjects : Bool) : VariableSymbol → List Expr
  | ⟨name, subscript, _⟩ => name.nodes subjects ++ nodesOfEach subjects subscript

/-- The expressions inside the name of a variable. -/
def VariableName.nodes (subjects : Bool) : VariableName → List Expr
  | .basic _ => []
  | .created chain => nodesOfChain subjects chain

/-- The expressions inside a quoted string. -/
def StringTerm.nodes (subjects : Bool) : StringTerm → List Expr
  | ⟨duplication, chain, selection⟩ =>
      nodesOfOption subjects duplication ++ nodesOfChain subjects chain ++
        selection.nodes subjects

/-- The expressions inside a selection. -/
def Selection.nodes (subjects : Bool) : Selection → List Expr
  | ⟨start, count, _⟩ => nodesOfOption subjects start ++ nodesOfOption subjects count

/-- The expressions inside a piece of text. -/
def ChainItem.nodes (subjects : Bool) : ChainItem → List Expr
  | .variableItem reference => reference.nodes subjects
  | .sublist members => nodesOfMembers subjects members
  | .text _ | .dot | .equals => []

/-- The nodes of some expressions. -/
def nodesOfEach (subjects : Bool) : List Expr → List Expr
  | [] => []
  | expr :: rest => expr.nodes subjects ++ nodesOfEach subjects rest

/-- The nodes of an expression that may be missing. -/
def nodesOfOption (subjects : Bool) : Option Expr → List Expr
  | none => []
  | some expr => expr.nodes subjects

/-- The expressions inside a chain. -/
def nodesOfChain (subjects : Bool) : List ChainItem → List Expr
  | [] => []
  | item :: rest => item.nodes subjects ++ nodesOfChain subjects rest

/-- The expressions inside the members of a sublist. -/
def nodesOfMembers (subjects : Bool) : List (List ChainItem) → List Expr
  | [] => []
  | chain :: rest => nodesOfChain subjects chain ++ nodesOfMembers subjects rest

end

theorem Expr.mem_nodes_self (subjects : Bool) (expr : Expr) : expr ∈ expr.nodes subjects := by
  cases expr <;> simp [Expr.nodes]

theorem mem_nodesOfEach {subjects : Bool} {node : Expr} {exprs : List Expr} :
    node ∈ nodesOfEach subjects exprs ↔ ∃ expr ∈ exprs, node ∈ expr.nodes subjects := by
  induction exprs with
  | nil => simp [nodesOfEach]
  | cons expr rest ih => simp [nodesOfEach, ih]

/-! ## Nodes of nodes -/

/-- Some nodes contain with each of them all nodes of that one. -/
def Closed (subjects : Bool) (nodes : List Expr) : Prop :=
  ∀ node ∈ nodes, ∀ inner ∈ node.nodes subjects, inner ∈ nodes

section

variable {subjects : Bool}

theorem Closed.nil : Closed subjects [] :=
  nofun

theorem Closed.append {first second : List Expr} (left : Closed subjects first)
    (right : Closed subjects second) : Closed subjects (first ++ second) := by
  intro node isNode inner isInner
  rcases List.mem_append.mp isNode with inFirst | inSecond
  · exact List.mem_append_left _ (left node inFirst inner isInner)
  · exact List.mem_append_right _ (right node inSecond inner isInner)

/-- The nodes of an expression are closed when those inside it are. -/
theorem Closed.expr {nodes : List Expr} (closed : Closed subjects nodes) {expr : Expr}
    (whole : expr.nodes subjects = expr :: nodes) : Closed subjects (expr.nodes subjects) := by
  intro node isNode inner isInner
  rw [whole] at isNode
  rcases List.mem_cons.mp isNode with rfl | inside
  · exact isInner
  · rw [whole]
    exact List.mem_cons_of_mem _ (closed node inside inner isInner)

mutual

theorem Expr.closed : ∀ expr : Expr, Closed subjects (expr.nodes subjects)
  | .constant _ _ _ | .symbol _ _ _ | .symbolAttribute _ _ _ _ => Closed.nil.expr rfl
  | .variableTerm reference _ => reference.closed.expr rfl
  | .variableAttribute _ reference _ _ => by
      have inner := reference.closed
      cases subjects with
      | true => exact inner.expr rfl
      | false => exact Closed.nil.expr rfl
  | .string term _ _ => term.closed.expr rfl
  | .unresolved fragments _ => (closed_each fragments).expr rfl
  | .resolved root _ _ _ => root.closed.expr rfl
  | .unary _ operand _ _ _ => operand.closed.expr rfl
  | .binary _ left right _ _ _ => (left.closed.append right.closed).expr rfl

theorem VariableSymbol.closed :
    ∀ reference : VariableSymbol, Closed subjects (reference.nodes subjects)
  | ⟨name, subscript, _⟩ => name.closed.append (closed_each subscript)

theorem VariableName.closed : ∀ name : VariableName, Closed subjects (name.nodes subjects)
  | .basic _ => .nil
  | .created chain => closed_chain chain

theorem StringTerm.closed : ∀ term : StringTerm, Closed subjects (term.nodes subjects)
  | ⟨duplication, chain, selection⟩ =>
      ((closed_option duplication).append (closed_chain chain)).append selection.closed

theorem Selection.closed : ∀ selection : Selection, Closed subjects (selection.nodes subjects)
  | ⟨start, count, _⟩ => (closed_option start).append (closed_option count)

theorem ChainItem.closed : ∀ item : ChainItem, Closed subjects (item.nodes subjects)
  | .text _ | .dot | .equals => .nil
  | .variableItem reference => reference.closed
  | .sublist members => closed_members members

theorem closed_each : ∀ exprs : List Expr, Closed subjects (nodesOfEach subjects exprs)
  | [] => .nil
  | expr :: rest => expr.closed.append (closed_each rest)

theorem closed_option : ∀ expr : Option Expr, Closed subjects (nodesOfOption subjects expr)
  | none => .nil
  | some expr => expr.closed

theorem closed_chain : ∀ chain : List ChainItem, Closed subjects (nodesOfChain subjects chain)
  | [] => .nil
  | item :: rest => item.closed.append (closed_chain rest)

theorem closed_members :
    ∀ members : List (List ChainItem), Closed subjects (nodesOfMembers subjects members)
  | [] => .nil
  | chain :: rest => (closed_chain chain).append (closed_members rest)

end

theorem Expr.mem_nodes_trans {expr node inner : Expr} (isNode : node ∈ expr.nodes subjects)
    (isInner : inner ∈ node.nodes subjects) : inner ∈ expr.nodes subjects :=
  expr.closed node isNode inner isInner

end

/-! ## Expressions that stand for numbers -/

mutual

/-- The subscripts in a reference to a variable, those in its name included. -/
def VariableSymbol.numbers : VariableSymbol → List Expr
  | ⟨name, subscript, _⟩ => name.numbers ++ subscript

/-- The subscripts in the name of a variable. -/
def VariableName.numbers : VariableName → List Expr
  | .basic _ => []
  | .created chain => numbersOfChain chain

/-- The subscripts in a piece of text. -/
def ChainItem.numbers : ChainItem → List Expr
  | .variableItem reference => reference.numbers
  | .sublist members => numbersOfMembers members
  | .text _ | .dot | .equals => []

/-- The subscripts in a chain. -/
def numbersOfChain : List ChainItem → List Expr
  | [] => []
  | item :: rest => item.numbers ++ numbersOfChain rest

/-- The subscripts in the members of a sublist. -/
def numbersOfMembers : List (List ChainItem) → List Expr
  | [] => []
  | chain :: rest => numbersOfChain chain ++ numbersOfMembers rest

end

/-- The bounds of a selection. -/
def Selection.numbers : Selection → List Expr
  | ⟨start, count, _⟩ => start.toList ++ count.toList

/-- The duplication factor of a string, the subscripts in its text and the
bounds of the part selected from it. -/
def StringTerm.numbers : StringTerm → List Expr
  | ⟨duplication, chain, selection⟩ =>
      duplication.toList ++ numbersOfChain chain ++ selection.numbers

/-- The expressions inside a variable term or a string from which it takes
numbers.  They may hold further terms, whose numbers are their own. -/
def Expr.numbers : Expr → List Expr
  | .variableTerm reference _ => reference.numbers
  | .string term _ _ => term.numbers
  | _ => []

/-! ## Nodes inside the subjects of attributes -/

/-- A node that stands inside the subject of one of some attributes. -/
def InSubject (node : Expr) (nodes : List Expr) : Prop :=
  ∃ kind reference range domain,
    .variableAttribute kind reference range domain ∈ nodes ∧ node ∈ reference.nodes true

/-- A list of nodes is another one together with the nodes inside its attributes' subjects. -/
def Completes (full surface : List Expr) : Prop :=
  ∀ node, node ∈ full ↔ node ∈ surface ∨ InSubject node surface

theorem Completes.nil : Completes [] [] := by
  simp [Completes, InSubject]

theorem Completes.append {first firstSurface second secondSurface : List Expr}
    (left : Completes first firstSurface) (right : Completes second secondSurface) :
    Completes (first ++ second) (firstSurface ++ secondSurface) := by
  intro node
  have inSubject : InSubject node (firstSurface ++ secondSurface) ↔
      InSubject node firstSurface ∨ InSubject node secondSurface := by
    simp [InSubject, or_and_right, exists_or]
  rw [List.mem_append, left node, right node, List.mem_append, inSubject]
  exact or_or_or_comm

/-- A node that is no attribute has no subject. -/
theorem Completes.cons {full surface : List Expr} (completes : Completes full surface)
    {first : Expr}
    (plain : ∀ kind reference range domain, first ≠ .variableAttribute kind reference range domain) :
    Completes (first :: full) (first :: surface) := by
  intro node
  have inSubject : InSubject node (first :: surface) ↔ InSubject node surface := by
    simp [InSubject, (plain _ _ _ _).symm]
  rw [List.mem_cons, completes node, List.mem_cons, inSubject, or_assoc]

/-- An attribute has the nodes inside its own subject. -/
theorem Completes.attribute (kind : Attribute) (reference : VariableSymbol) (range : Range)
    (domain : Option Domain) :
    Completes (.variableAttribute kind reference range domain :: reference.nodes true)
      [.variableAttribute kind reference range domain] := by
  intro node
  rw [List.mem_cons, List.mem_singleton]
  apply or_congr_right
  constructor
  · intro inside
    exact ⟨kind, reference, range, domain, List.mem_singleton_self _, inside⟩
  · rintro ⟨_, _, _, _, same, inside⟩
    cases List.mem_singleton.mp same
    exact inside

mutual

theorem Expr.completes : ∀ expr : Expr, Completes (expr.nodes true) (expr.nodes false)
  | .constant _ _ _ => Completes.nil.cons nofun
  | .symbol _ _ _ => Completes.nil.cons nofun
  | .variableTerm reference _ => reference.completes.cons nofun
  | .symbolAttribute _ _ _ _ => Completes.nil.cons nofun
  | .variableAttribute kind reference range domain => .attribute kind reference range domain
  | .string term _ _ => term.completes.cons nofun
  | .unresolved fragments _ => (completes_each fragments).cons nofun
  | .resolved root _ _ _ => root.completes.cons nofun
  | .unary _ operand _ _ _ => operand.completes.cons nofun
  | .binary _ left right _ _ _ => (left.completes.append right.completes).cons nofun

theorem VariableSymbol.completes :
    ∀ reference : VariableSymbol, Completes (reference.nodes true) (reference.nodes false)
  | ⟨name, subscript, _⟩ => name.completes.append (completes_each subscript)

theorem VariableName.completes :
    ∀ name : VariableName, Completes (name.nodes true) (name.nodes false)
  | .basic _ => .nil
  | .created chain => completes_chain chain

theorem StringTerm.completes :
    ∀ term : StringTerm, Completes (term.nodes true) (term.nodes false)
  | ⟨duplication, chain, selection⟩ =>
      ((completes_option duplication).append (completes_chain chain)).append selection.completes

theorem Selection.completes :
    ∀ selection : Selection, Completes (selection.nodes true) (selection.nodes false)
  | ⟨start, count, _⟩ => (completes_option start).append (completes_option count)

theorem ChainItem.completes : ∀ item : ChainItem, Completes (item.nodes true) (item.nodes false)
  | .text _ | .dot | .equals => .nil
  | .variableItem reference => reference.completes
  | .sublist members => completes_members members

theorem completes_each :
    ∀ exprs : List Expr, Completes (nodesOfEach true exprs) (nodesOfEach false exprs)
  | [] => .nil
  | expr :: rest => expr.completes.append (completes_each rest)

theorem completes_option :
    ∀ expr : Option Expr, Completes (nodesOfOption true expr) (nodesOfOption false expr)
  | none => .nil
  | some expr => expr.completes

theorem completes_chain :
    ∀ chain : List ChainItem, Completes (nodesOfChain true chain) (nodesOfChain false chain)
  | [] => .nil
  | item :: rest => item.completes.append (completes_chain rest)

theorem completes_members :
    ∀ members : List (List ChainItem),
      Completes (nodesOfMembers true members) (nodesOfMembers false members)
  | [] => .nil
  | chain :: rest => (completes_chain chain).append (completes_members rest)

end

/-- The nodes of an expression are those outside the subjects of its attributes
and those inside them. -/
theorem Expr.mem_nodes_iff {expr node : Expr} :
    node ∈ expr.nodes true ↔
      node ∈ expr.nodes false ∨
        ∃ kind reference range domain,
          .variableAttribute kind reference range domain ∈ expr.nodes false ∧
            node ∈ reference.nodes true :=
  expr.completes node

theorem Expr.nodes_subset {expr node : Expr} (outside : node ∈ expr.nodes false) :
    node ∈ expr.nodes true :=
  Expr.mem_nodes_iff.mpr (.inl outside)

end ConditionalAssembly
