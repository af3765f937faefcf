import Mathlib.Logic.Relation
import ConditionalAssembly.Expr

/-!
# The parts of an expression

A term and a reference to a variable are parts of the source, and so is what
they are made up of: the children of a part are the terms and references
directly inside it, in the order of the source.

A property of all that is inside a part is one of the part and of all that is
inside its children.
-/

namespace ConditionalAssembly

mutual

/-- The variables in a piece of text, from left to right. -/
def ChainItem.references : ChainItem → List VariableSymbol
  | .variableItem reference => [reference]
  | .sublist members => referencesOfMembers members
  | .text _ | .dot | .equals => []

/-- The variables in a chain. -/
def referencesOfChain : List ChainItem → List VariableSymbol
  | [] => []
  | item :: rest => item.references ++ referencesOfChain rest

/-- The variables in the members of a sublist. -/
def referencesOfMembers : List (List ChainItem) → List VariableSymbol
  | [] => []
  | chain :: rest => referencesOfChain chain ++ referencesOfMembers rest

end

/-- The variables that the name of a variable is made up of. -/
def VariableName.references : VariableName → List VariableSymbol
  | .basic _ => []
  | .created chain => referencesOfChain chain

/-- A term or a reference to a variable. -/
inductive Part where
  | term (expr : Expr)
  | reference (symbol : VariableSymbol)

namespace Part

/-- The range a part stands on. -/
def range : Part → Range
  | .term expr => expr.range
  | .reference symbol => symbol.range

/-- The bounds of a selection. -/
def ofSelection (selection : Selection) : List Part :=
  (selection.start.toList ++ selection.count.toList).map .term

/-- The duplication factor of a string and the variables in its text. -/
def ofText (duplication : Option Expr) (chain : Chain) : List Part :=
  duplication.toList.map .term ++ (referencesOfChain chain).map .reference

/-- The terms and references directly inside a part. -/
def children : Part → List Part
  | .reference symbol => symbol.name.references.map .reference ++ symbol.subscript.map .term
  | .term (.constant _ _ _) | .term (.symbol _ _ _) | .term (.symbolAttribute _ _ _ _) => []
  | .term (.variableTerm symbol _) | .term (.variableAttribute _ symbol _ _) => [.reference symbol]
  | .term (.string text _ _) => ofText text.duplication text.chain ++ ofSelection text.selection
  | .term (.unresolved fragments _) => fragments.map .term
  | .term (.resolved root _ _ _) => [.term root]
  | .term (.unary _ operand _ _ _) => [.term operand]
  | .term (.binary _ left right _ _ _) => [.term left, .term right]

/-- A part is the other or stands inside it. -/
def Inside (inner whole : Part) : Prop :=
  Relation.ReflTransGen (fun outer child => child ∈ outer.children) whole inner

/-- A part and all that is inside it have a property. -/
def Throughout (property : Part → Prop) (part : Part) : Prop :=
  ∀ inner, inner.Inside part → property inner

variable {property : Part → Prop}

/-- A property of all that is inside a part is one of the part and of all inside its children. -/
theorem throughout_iff {part : Part} :
    part.Throughout property ↔
      property part ∧ ∀ child ∈ part.children, child.Throughout property := by
  constructor
  · intro throughout
    exact ⟨throughout part .refl, fun child isChild inner inside =>
      throughout inner (.head isChild inside)⟩
  · rintro ⟨holds, children⟩ inner inside
    rcases Relation.ReflTransGen.cases_head inside with rfl | ⟨child, isChild, further⟩
    · exact holds
    · exact children child isChild inner further

end Part

end ConditionalAssembly
