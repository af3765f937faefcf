import ConditionalAssembly.Proofs.Evaluation.Independence
import ConditionalAssembly.Proofs.Expr.Parts

/-!
# Dependencies of an expression

The nodes of an expression are the terms that can be reached from it by going
from a part to its children.  So the symbols collected from an expression are
those of the attributes that stand anywhere inside it.
-/

namespace ConditionalAssembly

namespace Part

/-- Some nodes are the terms inside some parts. -/
def Enumerates (nodes : List Expr) (parts : List Part) : Prop :=
  ∀ node, node ∈ nodes ↔ ∃ part ∈ parts, (Part.term node).Inside part

theorem inside_iff (whole : Part) {inner : Part} :
    inner.Inside whole ↔ whole = inner ∨ ∃ child ∈ whole.children, inner.Inside child :=
  Relation.ReflTransGen.cases_head_iff

namespace Enumerates

theorem nil : Enumerates [] [] := by
  simp [Enumerates]

theorem append {nodes moreNodes : List Expr} {parts moreParts : List Part}
    (first : Enumerates nodes parts) (second : Enumerates moreNodes moreParts) :
    Enumerates (nodes ++ moreNodes) (parts ++ moreParts) := by
  intro node
  simp only [List.mem_append, first node, second node, or_and_right, exists_or]

/-- The nodes of a term are the term and those inside its children. -/
theorem term {nodes : List Expr} {expr : Expr}
    (children : Enumerates nodes (Part.term expr).children) :
    Enumerates (expr :: nodes) [.term expr] := by
  intro node
  simp only [List.mem_cons, List.mem_nil_iff, or_false, exists_eq_left, children node,
    inside_iff (.term expr), Part.term.injEq]
  rw [eq_comm]

/-- The nodes of a reference are those inside its children, for it is no term itself. -/
theorem reference {nodes : List Expr} {symbol : VariableSymbol}
    (children : Enumerates nodes (Part.reference symbol).children) :
    Enumerates nodes [.reference symbol] := by
  intro node
  simp only [List.mem_singleton, exists_eq_left, children node,
    inside_iff (.reference symbol), reduceCtorEq, false_or]

end Enumerates

end Part

mutual

theorem Expr.enumerates : ∀ expr : Expr, Part.Enumerates (expr.nodes true) [.term expr]
  | .constant _ _ _ => .term .nil
  | .symbol _ _ _ => .term .nil
  | .symbolAttribute _ _ _ _ => .term .nil
  | .variableTerm symbol _ => .term symbol.enumerates
  | .variableAttribute _ symbol _ _ => .term symbol.enumerates
  | .string text _ _ => .term text.enumerates
  | .unresolved fragments _ => .term (enumerates_each fragments)
  | .resolved root _ _ _ => .term root.enumerates
  | .unary _ operand _ _ _ => .term operand.enumerates
  | .binary _ left right _ _ _ => .term (left.enumerates.append right.enumerates)

theorem VariableSymbol.enumerates :
    ∀ symbol : VariableSymbol, Part.Enumerates (symbol.nodes true) [.reference symbol]
  | ⟨name, subscript, _⟩ => .reference (name.enumerates.append (enumerates_each subscript))

theorem VariableName.enumerates :
    ∀ name : VariableName, Part.Enumerates (name.nodes true) (name.references.map .reference)
  | .basic _ => .nil
  | .created chain => enumerates_chain chain

theorem StringTerm.enumerates :
    ∀ term : StringTerm,
      Part.Enumerates (term.nodes true)
        (Part.ofText term.duplication term.chain ++ Part.ofSelection term.selection)
  | ⟨duplication, chain, selection⟩ =>
      ((enumerates_option duplication).append (enumerates_chain chain)).append selection.enumerates

theorem Selection.enumerates :
    ∀ selection : Selection, Part.Enumerates (selection.nodes true) (Part.ofSelection selection)
  | ⟨start, count, _⟩ => by
      rw [Part.ofSelection, List.map_append]
      exact (enumerates_option start).append (enumerates_option count)

theorem ChainItem.enumerates :
    ∀ item : ChainItem, Part.Enumerates (item.nodes true) (item.references.map .reference)
  | .text _ | .dot | .equals => .nil
  | .variableItem symbol => symbol.enumerates
  | .sublist members => enumerates_members members

theorem enumerates_each :
    ∀ exprs : List Expr, Part.Enumerates (nodesOfEach true exprs) (exprs.map .term)
  | [] => .nil
  | expr :: rest => expr.enumerates.append (enumerates_each rest)

theorem enumerates_option :
    ∀ expr : Option Expr, Part.Enumerates (nodesOfOption true expr) (expr.toList.map .term)
  | none => .nil
  | some expr => expr.enumerates

theorem enumerates_chain :
    ∀ chain : List ChainItem,
      Part.Enumerates (nodesOfChain true chain) ((referencesOfChain chain).map .reference)
  | [] => .nil
  | item :: rest => by
      rw [referencesOfChain, List.map_append]
      exact item.enumerates.append (enumerates_chain rest)

theorem enumerates_members :
    ∀ members : List (List ChainItem),
      Part.Enumerates (nodesOfMembers true members) ((referencesOfMembers members).map .reference)
  | [] => .nil
  | chain :: rest => by
      rw [referencesOfMembers, List.map_append]
      exact (enumerates_chain chain).append (enumerates_members rest)

end

theorem Expr.mem_nodes_iff_inside {expr node : Expr} :
    node ∈ expr.nodes true ↔ (Part.term node).Inside (.term expr) := by
  rw [expr.enumerates node]
  simp only [List.mem_singleton, exists_eq_left]

/-! ## Attributes of ordinary symbols -/

theorem Attribute.requiresDefinedSymbol_iff {kind : Attribute} :
    kind.requiresDefinedSymbol = true ↔ kind ≠ .count ∧ kind ≠ .number := by
  cases kind <;> decide

/-- An attribute is asked of an ordinary symbol by a term inside the expression. -/
theorem Expr.mem_queries_iff_inside {expr : Expr} {kind : Attribute} {name : String} :
    .ofSymbol kind name ∈ queries (expr.nodes true) ↔
      ∃ range domain, (Part.term (.symbolAttribute kind name range domain)).Inside (.term expr) := by
  rw [mem_queries]
  constructor
  · rintro ⟨node, isNode, asks⟩
    cases node with
    | symbolAttribute _ _ range domain =>
        cases asks
        exact ⟨range, domain, Expr.mem_nodes_iff_inside.mp isNode⟩
    | _ => cases asks
  · rintro ⟨range, domain, inside⟩
    exact ⟨_, Expr.mem_nodes_iff_inside.mpr inside, rfl⟩

/-- Once a symbol is defined, all others that were not resolvable still are not. -/
theorem Context.resolvable_defineSymbol_eq_false {context : Context} {name other : String}
    {symbol : OrdinarySymbol} {kind : Attribute} :
    (context.defineSymbol name symbol).resolvable kind other = false ↔
      name ≠ other ∧ context.resolvable kind other = false := by
  change (context.store.symbolTable.insert name symbol).contains other = false ↔ _
  rw [Std.TreeMap.contains_insert, Bool.or_eq_false_iff, beq_eq_false_iff_ne, ne_eq,
    Std.compare_eq_iff_eq]
  rfl

/-- The symbols collected from an expression are exactly those of which some
attribute inside it, other than the count and number attributes, cannot be
resolved.  They are listed in ascending order and without repetition, and
defining one more symbol takes exactly that one away. -/
theorem Expr.undefinedSymbols_exact (expr : Expr) (resolvable : Attribute → String → Bool) :
    (∀ name, name ∈ (expr.undefinedSymbols resolvable).toList ↔
      ∃ kind range domain,
        (Part.term (.symbolAttribute kind name range domain)).Inside (.term expr) ∧
          (kind ≠ .count ∧ kind ≠ .number) ∧ resolvable kind name = false) ∧
    (expr.undefinedSymbols resolvable).toList.Pairwise (· < ·) ∧
    ∀ (context : Context) (name : String) (symbol : OrdinarySymbol),
      (expr.undefinedSymbols (context.defineSymbol name symbol).resolvable).toList =
        ((expr.undefinedSymbols context.resolvable).erase name).toList := by
  constructor
  · intro name
    rw [Std.TreeSet.mem_toList, Expr.mem_undefinedSymbols_iff_queries]
    simp only [Expr.mem_queries_iff_inside, Attribute.requiresDefinedSymbol_iff, exists_and_right]
  constructor
  · exact Std.TreeSet.ordered_toList.imp fun less => compare_lt_iff_lt.mp less
  · intro context name symbol
    apply Std.TreeSet.equiv_iff_toList_eq.mp
    apply Std.TreeSet.Equiv.of_forall_mem_iff
    intro other
    simp only [Std.TreeSet.mem_erase, Expr.mem_undefinedSymbols_iff_queries,
      Context.resolvable_defineSymbol_eq_false, ne_eq, Std.compare_eq_iff_eq]
    constructor
    · rintro ⟨kind, asked, needed, different, unknown⟩
      exact ⟨different, kind, asked, needed, unknown⟩
    · rintro ⟨different, kind, asked, needed, unknown⟩
      exact ⟨kind, asked, needed, different, unknown⟩

/-- The subscript of the variable `X` counts, though the attribute of `X` itself does not. -/
example :
    (Expr.read "L'B+N'&X(D'A)+K'C+T'B").map
        (fun expr => (expr.undefinedSymbols fun _ _ => false).toList) =
      .ok ["A", "B"] := by
  cbv

end ConditionalAssembly
