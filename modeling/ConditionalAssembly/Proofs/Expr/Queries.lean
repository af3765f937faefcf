import ConditionalAssembly.Dependency
import ConditionalAssembly.Proofs.Expr.Nodes

/-!
# The attributes in an expression

An attribute is asked of an ordinary symbol or of a variable.  What is collected
from an expression are the attributes that its nodes ask of ordinary symbols,
those inside the subjects of other attributes included.
-/

namespace ConditionalAssembly

/-- An attribute together with what it is asked of. -/
inductive Query where
  | ofSymbol (kind : Attribute) (name : String)
  | ofVariable (kind : Attribute) (reference : VariableSymbol)

/-- The attribute that a node asks for, if it is an attribute. -/
def Expr.query? : Expr → Option Query
  | .symbolAttribute kind name _ _ => some (.ofSymbol kind name)
  | .variableAttribute kind reference _ _ => some (.ofVariable kind reference)
  | _ => none

/-- The attributes that some nodes ask for. -/
def queries (nodes : List Expr) : List Query :=
  nodes.filterMap Expr.query?

theorem mem_queries {nodes : List Expr} {query : Query} :
    query ∈ queries nodes ↔ ∃ node ∈ nodes, node.query? = some query :=
  List.mem_filterMap

theorem mem_queries_cons {node : Expr} {nodes : List Expr} {query : Query} :
    query ∈ queries (node :: nodes) ↔ node.query? = some query ∨ query ∈ queries nodes := by
  simp only [mem_queries, List.mem_cons, exists_eq_or_imp]

theorem mem_queries_of_variableAttribute {nodes : List Expr} {kind : Attribute}
    {reference : VariableSymbol} {range : Range} {domain : Option Domain}
    (isNode : .variableAttribute kind reference range domain ∈ nodes) :
    .ofVariable kind reference ∈ queries nodes :=
  mem_queries.mpr ⟨_, isNode, rfl⟩

theorem exists_variableAttribute_of_mem_queries {nodes : List Expr} {kind : Attribute}
    {reference : VariableSymbol} (asked : .ofVariable kind reference ∈ queries nodes) :
    ∃ range domain, .variableAttribute kind reference range domain ∈ nodes := by
  rcases mem_queries.mp asked with ⟨node, isNode, asks⟩
  cases node with
  | variableAttribute _ _ range domain =>
      cases asks
      exact ⟨range, domain, isNode⟩
  | _ => cases asks

/-- The attributes outside the subjects of others decide about those inside as well. -/
theorem queries_subset_of_surface {first second : Expr}
    (surface : queries (first.nodes false) ⊆ queries (second.nodes false)) :
    queries (first.nodes true) ⊆ queries (second.nodes true) := by
  intro query asked
  rcases mem_queries.mp asked with ⟨node, isNode, asks⟩
  rcases Expr.mem_nodes_iff.mp isNode with outside | ⟨kind, reference, _, _, isOuter, inside⟩
  · rcases mem_queries.mp (surface (mem_queries.mpr ⟨node, outside, asks⟩)) with
      ⟨other, isOther, otherAsks⟩
    exact mem_queries.mpr ⟨other, Expr.nodes_subset isOther, otherAsks⟩
  · have asksOuter := surface (mem_queries_of_variableAttribute isOuter)
    rcases exists_variableAttribute_of_mem_queries asksOuter with ⟨range, domain, isOther⟩
    have isNodeToo : node ∈ second.nodes true :=
      Expr.mem_nodes_iff.mpr (.inr ⟨kind, reference, range, domain, isOther, inside⟩)
    exact mem_queries.mpr ⟨node, isNodeToo, asks⟩

/-! ## References -/

/-- Some references are the attributes that some nodes ask of ordinary symbols. -/
def Collects (references : List (Attribute × String)) (nodes : List Expr) : Prop :=
  ∀ kind name, (kind, name) ∈ references ↔ .ofSymbol kind name ∈ queries nodes

namespace Collects

variable {references : List (Attribute × String)} {nodes : List Expr}

theorem nil : Collects [] [] := by
  simp [Collects, queries]

theorem append {moreReferences : List (Attribute × String)} {moreNodes : List Expr}
    (first : Collects references nodes) (second : Collects moreReferences moreNodes) :
    Collects (references ++ moreReferences) (nodes ++ moreNodes) := by
  intro kind name
  rw [queries, List.filterMap_append, List.mem_append, List.mem_append]
  exact or_congr (first kind name) (second kind name)

/-- A node that asks nothing of an ordinary symbol. -/
theorem cons (collects : Collects references nodes) {node : Expr}
    (other : ∀ kind name, node.query? ≠ some (.ofSymbol kind name)) :
    Collects references (node :: nodes) := by
  intro kind name
  rw [collects kind name, mem_queries_cons]
  exact (or_iff_right (other kind name)).symm

theorem symbolAttribute (kind : Attribute) (name : String) (range : Range)
    (domain : Option Domain) :
    Collects [(kind, name)] [.symbolAttribute kind name range domain] := by
  intro otherKind otherName
  simp [queries, Expr.query?, eq_comm]

/-- The order of the nodes does not matter. -/
theorem perm (collects : Collects references nodes) {others : List Expr}
    (same : nodes.Perm others) : Collects references others := by
  intro kind name
  exact (collects kind name).trans (same.filterMap _).mem_iff

end Collects

mutual

theorem Expr.collects : ∀ expr : Expr, Collects expr.attributeReferences (expr.nodes true)
  | .constant _ _ _ | .symbol _ _ _ => Collects.nil.cons nofun
  | .variableTerm reference _ => reference.collects.cons nofun
  | .symbolAttribute kind name range domain => .symbolAttribute kind name range domain
  | .variableAttribute _ reference _ _ => reference.collects.cons nofun
  | .string ⟨duplication, chain, ⟨start, count, _⟩⟩ _ _ => by
      have text := (collects_chain chain).append (collects_option duplication)
      have bounds := (collects_option start).append (collects_option count)
      -- References begin with the text, nodes with the duplication factor.
      have swapped := text.perm List.perm_append_comm
      rw [Expr.attributeReferences, List.append_assoc]
      exact (swapped.append bounds).cons nofun
  | .unresolved fragments _ => (collects_each fragments).cons nofun
  | .resolved root _ _ _ => root.collects.cons nofun
  | .unary _ operand _ _ _ => operand.collects.cons nofun
  | .binary _ left right _ _ _ => (left.collects.append right.collects).cons nofun

theorem VariableSymbol.collects :
    ∀ reference : VariableSymbol, Collects reference.attributeReferences (reference.nodes true)
  | ⟨.basic _, subscript, _⟩ => collects_each subscript
  | ⟨.created chain, subscript, _⟩ => (collects_chain chain).append (collects_each subscript)

theorem ChainItem.collects :
    ∀ item : ChainItem, Collects item.attributeReferences (item.nodes true)
  | .text _ | .dot | .equals => .nil
  | .variableItem reference => reference.collects
  | .sublist members => collects_members members

theorem collects_each :
    ∀ exprs : List Expr, Collects (listReferences exprs) (nodesOfEach true exprs)
  | [] => .nil
  | expr :: rest => expr.collects.append (collects_each rest)

theorem collects_option :
    ∀ expr : Option Expr, Collects (optionReferences expr) (nodesOfOption true expr)
  | none => .nil
  | some expr => expr.collects

theorem collects_chain :
    ∀ chain : List ChainItem, Collects (chainReferences chain) (nodesOfChain true chain)
  | [] => .nil
  | item :: rest => item.collects.append (collects_chain rest)

theorem collects_members :
    ∀ members : List (List ChainItem),
      Collects (memberReferences members) (nodesOfMembers true members)
  | [] => .nil
  | chain :: rest => (collects_chain chain).append (collects_members rest)

end

/-- What is collected from an expression are the attributes that its nodes ask
of ordinary symbols. -/
theorem Expr.mem_attributeReferences_iff {expr : Expr} {kind : Attribute} {name : String} :
    (kind, name) ∈ expr.attributeReferences ↔ .ofSymbol kind name ∈ queries (expr.nodes true) :=
  expr.collects kind name

/-- A symbol is collected exactly when a node asks for an attribute of it that
needs its definition and is not resolvable. -/
theorem Expr.mem_undefinedSymbols_iff_queries {resolvable : Attribute → String → Bool}
    {expr : Expr} {name : String} :
    name ∈ expr.undefinedSymbols resolvable ↔
      ∃ kind, .ofSymbol kind name ∈ queries (expr.nodes true) ∧ kind.requiresDefinedSymbol ∧
        resolvable kind name = false := by
  simp only [Expr.mem_undefinedSymbols_iff, Expr.mem_attributeReferences_iff]

/-- The symbols collected only depend on the attributes outside the subjects of others. -/
theorem undefinedSymbols_subset_of_surface {resolvable : Attribute → String → Bool}
    {first second : Expr}
    (surface : queries (first.nodes false) ⊆ queries (second.nodes false)) {name : String}
    (collected : name ∈ first.undefinedSymbols resolvable) :
    name ∈ second.undefinedSymbols resolvable := by
  rcases Expr.mem_undefinedSymbols_iff_queries.mp collected with ⟨kind, asked, needed⟩
  have askedToo := queries_subset_of_surface surface asked
  exact Expr.mem_undefinedSymbols_iff_queries.mpr ⟨kind, askedToo, needed⟩

end ConditionalAssembly
