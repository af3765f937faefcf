import ConditionalAssembly.Expr
import ConditionalAssembly.Text
import Std.Data.TreeSet

/-!
# Dependencies

An expression depends on an ordinary symbol when it asks for an attribute that
the symbol's definition decides.  The symbols whose attributes are not known
yet are collected into a set, in ascending order and without repetition.
-/

namespace ConditionalAssembly

/-- Names in ascending order. -/
abbrev SymbolSet := Std.TreeSet String

/-- A set of names as it is printed, between braces. -/
def SymbolSet.render (names : SymbolSet) : String :=
  "\x7b" ++ Text.join ", " names.toList ++ "\x7d"

mutual

/-- The attributes an expression asks of ordinary symbols, in order. -/
def Expr.attributeReferences : Expr → List (Attribute × String)
  | .constant _ _ _ | .symbol _ _ _ => []
  | .variableTerm reference _ => reference.attributeReferences
  | .symbolAttribute kind name _ _ => [(kind, name)]
  | .variableAttribute _ reference _ _ => reference.attributeReferences
  | .string ⟨duplication, chain, ⟨start, count, _⟩⟩ _ _ =>
      chainReferences chain ++ optionReferences duplication ++ optionReferences start ++
        optionReferences count
  | .unresolved fragments _ => listReferences fragments
  | .resolved root _ _ _ => root.attributeReferences
  | .unary _ operand _ _ _ => operand.attributeReferences
  | .binary _ left right _ _ _ => left.attributeReferences ++ right.attributeReferences

/-- The attributes asked for within the name and the subscript of a variable. -/
def VariableSymbol.attributeReferences : VariableSymbol → List (Attribute × String)
  | ⟨.basic _, subscript, _⟩ => listReferences subscript
  | ⟨.created chain, subscript, _⟩ => chainReferences chain ++ listReferences subscript

/-- The attributes asked for within a piece of text. -/
def ChainItem.attributeReferences : ChainItem → List (Attribute × String)
  | .variableItem reference => reference.attributeReferences
  | .sublist members => memberReferences members
  | .text _ | .dot | .equals => []

/-- The attributes asked for within a list of expressions. -/
def listReferences : List Expr → List (Attribute × String)
  | [] => []
  | expr :: rest => expr.attributeReferences ++ listReferences rest

/-- The attributes asked for within an expression that may be missing. -/
def optionReferences : Option Expr → List (Attribute × String)
  | none => []
  | some expr => expr.attributeReferences

/-- The attributes asked for within a chain. -/
def chainReferences : List ChainItem → List (Attribute × String)
  | [] => []
  | item :: rest => item.attributeReferences ++ chainReferences rest

/-- The attributes asked for within the members of a sublist. -/
def memberReferences : List (List ChainItem) → List (Attribute × String)
  | [] => []
  | chain :: rest => chainReferences chain ++ memberReferences rest

end

/-- The ordinary symbols whose attributes an expression needs and that cannot
be resolved yet. -/
def Expr.undefinedSymbols (resolvable : Attribute → String → Bool) (expr : Expr) : SymbolSet :=
  .ofList ((expr.attributeReferences.filter fun reference =>
    reference.1.requiresDefinedSymbol && !resolvable reference.1 reference.2).map Prod.snd)

/-- A symbol is collected exactly when an attribute of it is needed and not resolvable. -/
theorem Expr.mem_undefinedSymbols_iff {resolvable : Attribute → String → Bool} {expr : Expr}
    {name : String} :
    name ∈ expr.undefinedSymbols resolvable ↔
      ∃ kind, (kind, name) ∈ expr.attributeReferences ∧ kind.requiresDefinedSymbol ∧
        resolvable kind name = false := by
  simp only [undefinedSymbols, Std.TreeSet.mem_ofList, List.contains_iff_mem, List.mem_map,
    List.mem_filter, Bool.and_eq_true, Bool.not_eq_true', Prod.exists, exists_eq_right]

end ConditionalAssembly
