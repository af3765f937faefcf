import ConditionalAssembly.Proofs.Expr.Parsing
import ConditionalAssembly.Proofs.Token.Names

/-!
# Elementary sources

A source without strings, created names and attributes of variables is read as
numbers, words, attributes of symbols, variables and lists of such.  Its words
are those that tokens spell.
-/

namespace ConditionalAssembly

/-- A word that a token spells in a list of fragments. -/
def Token.IsWord (word : String) : Prop :=
  ∃ token : Token, token.Named ∧ token.word? = some word

theorem Token.isWord_of_isUpperName {name : String} (upper : Text.IsUpperName name) : IsWord name :=
  ⟨.identifier name, upper, rfl⟩

namespace Expr

/-- The node is neither a string nor a variable with a created name nor an attribute of a
variable. -/
def isElementary : Expr → Bool
  | .string _ _ _ | .variableTerm ⟨.created _, _, _⟩ _ | .variableAttribute _ _ _ _ => false
  | _ => true

/-- An expression as it is read from a source that has elementary nodes only. -/
inductive Elementary : Expr → Prop where
  | constant {value : Nat} {range : Range} :
      value < 2147483648 → Elementary (.constant (.ofInt value) range none)
  | symbol {name : String} {range : Range} :
      Token.IsWord name → Elementary (.symbol name range none)
  | symbolAttribute {kind : Attribute} {name : String} {range : Range} :
      Text.IsUpperName name → Elementary (.symbolAttribute kind name range none)
  | variableTerm {name : String} {subscript : List Expr} {range : Range} :
      Text.IsUpperName name → (∀ index ∈ subscript, index.isResolved = false) →
      (∀ index ∈ subscript, Elementary index) →
      Elementary (.variableTerm ⟨.basic name, subscript, range⟩ none)
  | unresolved {fragments : List Expr} {range : Range} :
      (∀ fragment ∈ fragments, Elementary fragment) → Elementary (.unresolved fragments range)

end Expr

open ConditionalAssembly.Expr Grammar

/-- All nodes of some expressions are elementary. -/
def AllElementary (nodes : List Expr) : Prop :=
  ∀ node ∈ nodes, node.isElementary

theorem AllElementary.of_append {first second : List Expr}
    (elementary : AllElementary (first ++ second)) :
    AllElementary first ∧ AllElementary second :=
  List.forall_mem_append.mp elementary

/-- Tokens hold names in upper case. -/
def AllNamed (tokens : List PlacedToken) : Prop :=
  ∀ placed ∈ tokens, placed.token.Named

theorem AllNamed.of_append {first second : List PlacedToken} (named : AllNamed (first ++ second)) :
    AllNamed first ∧ AllNamed second :=
  List.forall_mem_append.mp named

theorem AllNamed.of_cons {placed : PlacedToken} {rest : List PlacedToken}
    (named : AllNamed (placed :: rest)) : placed.token.Named ∧ AllNamed rest :=
  List.forall_mem_cons.mp named

namespace Grammar

theorem Subscripted.name_eq {bare reference : VariableSymbol} {tokens : List PlacedToken}
    {tail : Tail} (subscripted : Subscripted bare tokens reference tail) :
    reference.name = bare.name := by
  cases subscripted <;> rfl

mutual

/-- What is derived from tokens is elementary if its nodes are. -/
theorem elementary_fragments {tokens : List PlacedToken} {fragments : List Expr} :
    Fragments tokens fragments → AllNamed tokens → AllElementary (nodesOfEach true fragments) →
      ∀ fragment ∈ fragments, Elementary fragment
  | .nil, _, _ => nofun
  | .cons first _ rest, named, elementary => by
      have tokens := named.of_append
      have nodes := elementary.of_append
      exact List.forall_mem_cons.mpr ⟨elementary_fragment first tokens.1 nodes.1,
        elementary_fragments rest tokens.2 nodes.2⟩

theorem elementary_fragment {tokens : List PlacedToken} {fragment : Expr} {tail : Tail} :
    Fragment tokens fragment tail → AllNamed tokens → AllElementary (fragment.nodes true) →
      Elementary fragment
  | .integer _ bounded, _, _ => .constant bounded
  | .word isWord, named, _ => .symbol ⟨_, named.of_cons.1, isWord⟩
  | .symbolAttribute token, named, _ => by
      have upper := named.of_cons.1
      rw [token] at upper
      exact .symbolAttribute upper
  | .variableAttribute _ _, _, elementary => nomatch elementary _ (mem_nodes_self _ _)
  | @Fragment.variableTerm _ _ bare reference _ isNamed subscripted, named, elementary => by
      have tokens := named.of_append
      have indices := elementary_subscript subscripted
      have same := subscripted.name_eq
      rcases reference with ⟨name, subscript, range⟩
      cases same
      cases isNamed with
      | basic token =>
          have upper := tokens.1.of_cons.1
          rw [token] at upper
          have listed := indices rfl tokens.2 (List.forall_mem_cons.mp elementary).2
          exact .variableTerm upper (fun index isIndex => (listed index isIndex).1)
            (fun index isIndex => (listed index isIndex).2)
      | created => exact nomatch elementary _ (mem_nodes_self _ _)
  | .string _ _, _, elementary => nomatch elementary _ (mem_nodes_self _ _)
  | .group _ derived _, named, elementary =>
      .unresolved (elementary_fragments derived named.of_cons.2.of_append.1
        (List.forall_mem_cons.mp elementary).2)

theorem elementary_subscript {bare reference : VariableSymbol} {tokens : List PlacedToken}
    {tail : Tail} :
    Subscripted bare tokens reference tail → bare.subscript = [] → AllNamed tokens →
      AllElementary (nodesOfEach true reference.subscript) →
      ∀ index ∈ reference.subscript, index.isResolved = false ∧ Elementary index
  | .none, nothing, _, _ => by
      rw [nothing]
      nofun
  | .empty _ _ _, _, _, _ => nofun
  | .some _ _ arguments _, _, named, elementary =>
      elementary_arguments arguments named.of_cons.2 elementary

theorem elementary_arguments {tokens : List PlacedToken} {arguments : List Expr} {stop : Nat} :
    Arguments tokens arguments stop → AllNamed tokens →
      AllElementary (nodesOfEach true arguments) →
      ∀ index ∈ arguments, index.isResolved = false ∧ Elementary index
  | .last derived _, named, elementary => by
      have nodes := (List.forall_mem_cons.mp elementary.of_append.1).2
      exact List.forall_mem_singleton.mpr
        ⟨rfl, .unresolved (elementary_fragments derived named.of_append.1 nodes)⟩
  | .comma derived _ rest, named, elementary => by
      have tokens := named.of_append
      have nodes := elementary.of_append
      have first := elementary_fragments derived tokens.1 (List.forall_mem_cons.mp nodes.1).2
      exact List.forall_mem_cons.mpr
        ⟨⟨rfl, .unresolved first⟩, elementary_arguments rest tokens.2.of_cons.2 nodes.2⟩

end

end Grammar

theorem Expr.elementary_of_read {source : String} {expr : Expr}
    (read : Expr.read source = .ok expr) (elementary : AllElementary (expr.nodes true)) :
    expr.Elementary := by
  obtain ⟨tokens, fragments, listed, derived, rfl⟩ := derives_read source expr read
  exact .unresolved (elementary_fragments derived (Token.named_of_listOf listed)
    (List.forall_mem_cons.mp elementary).2)

end ConditionalAssembly
