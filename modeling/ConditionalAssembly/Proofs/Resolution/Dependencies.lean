import Mathlib
import ConditionalAssembly.Proofs.Expr.Queries
import ConditionalAssembly.Proofs.Resolution.Origins

/-!
# Dependencies of a resolved tree

Resolution takes every attribute over as it is.  It never adds one, and only
loses some together with a list that it replaces, which it reports.  So a
resolved tree depends on no other symbols than the expression it came from.
-/

namespace ConditionalAssembly

/-! ## Attributes of a single node -/

theorem Expr.word?_of_query? {source : Expr} {query : Query} (asks : source.query? = some query) :
    source.word? = none := by
  cases source with
  | symbolAttribute _ _ _ _ | variableAttribute _ _ _ _ => rfl
  | _ => cases asks

theorem Expr.Becomes.query?_eq {source result : Expr} {domain : Domain}
    (becomes : source.Becomes domain result) : result.query? = source.query? := by
  cases becomes <;> rfl

/-- A list owns no attribute. -/
theorem Expr.OwnedByList.query?_eq_none {node : Expr} {range : Range} {domain : Domain}
    (owned : node.OwnedByList range domain) : node.query? = none := by
  cases owned <;> rfl

theorem Expr.query?_of_mem_ownNodes {source node : Expr} {domain : Domain} {query : Query}
    (untagged : source.domain? = none) (own : node ∈ (source.resolve domain).value.ownNodes)
    (asks : node.query? = some query) : source.query? = some query := by
  rcases Expr.cases_of_mem_ownNodes untagged own with becomes | ⟨_, _, _, owned⟩
  · rwa [← becomes.query?_eq]
  · cases owned.query?_eq_none.symm.trans asks

theorem Expr.query?_resolve {source : Expr} {query : Query} (asks : source.query? = some query)
    (domain : Domain) : (source.resolve domain).value.query? = some query := by
  cases source with
  | symbolAttribute _ _ _ _ | variableAttribute _ _ _ _ => exact asks
  | _ => cases asks

/-! ## Attributes of a tree -/

namespace Traced

variable {sources nodes : List Expr} {calm : Prop}

theorem queries_subset (traced : Traced sources nodes calm) (untagged : AllUntagged sources) :
    queries nodes ⊆ queries sources := by
  intro query asked
  rcases mem_queries.mp asked with ⟨node, isNode, asks⟩
  rcases traced.origin node isNode with ⟨source, isSource, domain, own⟩
  have sourceAsks := Expr.query?_of_mem_ownNodes (untagged source isSource) own asks
  exact mem_queries.mpr ⟨source, isSource, sourceAsks⟩

/-- No attribute is lost as long as nothing is reported. -/
theorem subset_queries (traced : Traced sources nodes calm) (quiet : calm) :
    queries sources ⊆ queries nodes := by
  intro query asked
  rcases mem_queries.mp asked with ⟨source, isSource, asks⟩
  rcases traced.kept quiet source isSource (Expr.word?_of_query? asks) with ⟨domain, isNode⟩
  exact mem_queries.mpr ⟨_, isNode, Expr.query?_resolve asks domain⟩

end Traced

/-- Of a table, a term only uses the domain. -/
theorem Expr.resolveWith_eq_resolve {expr : Expr} (isTerm : expr.isResolved = true)
    (table : OperatorTable) : expr.resolveWith table = expr.resolve table.domain := by
  cases expr with
  | constant _ _ _ | symbol _ _ _ | symbolAttribute _ _ _ _ | variableAttribute _ _ _ _ =>
      simp [Expr.resolve, Expr.resolveWith]
  | variableTerm _ domain => cases domain <;> simp [Expr.resolve, Expr.resolveWith]
  | string term _ domain =>
      rcases term with ⟨_, _, ⟨_, _, _⟩⟩
      cases domain <;> simp [Expr.resolve, Expr.resolveWith]
  | unresolved _ _ => cases isTerm
  | resolved _ _ _ _ | unary _ _ _ _ _ | binary _ _ _ _ _ _ => rfl

section

variable {expr : Expr} (untagged : AllUntagged (expr.nodes false)) (table : OperatorTable)

include untagged

/-- By whatever table an expression is resolved, its tree has no other attributes. -/
theorem Expr.queries_resolveWith_subset :
    queries ((expr.resolveWith table).value.nodes false) ⊆ queries (expr.nodes false) := by
  by_cases isTerm : expr.isResolved = true
  · rw [Expr.resolveWith_eq_resolve isTerm]
    exact (expr.traced untagged _).queries_subset untagged
  · cases expr with
    | unresolved fragments range =>
        intro query asked
        rcases mem_queries.mp asked with ⟨node, isNode, asks⟩
        rcases origin_of_list isNode with own | ⟨fragment, isFragment, domain, resolved⟩
        · cases (ownedByList_of_mem_ownNodes own).query?_eq_none.symm.trans asks
        · have inner := (allUntagged_cons.mp untagged).2.of_mem isFragment
          have traced := fragment.traced inner domain
          have asked := traced.queries_subset inner (mem_queries.mpr ⟨node, resolved, asks⟩)
          rcases mem_queries.mp asked with ⟨source, isSource, sourceAsks⟩
          have inList := mem_nodesOfEach.mpr ⟨fragment, isFragment, isSource⟩
          exact mem_queries.mpr ⟨source, List.mem_cons_of_mem _ inList, sourceAsks⟩
    | _ => exact absurd rfl isTerm

/-- As long as nothing is reported, the tree has all attributes of the expression. -/
theorem Expr.queries_subset_resolveWith (calm : (expr.resolveWith table).diagnostics = []) :
    queries (expr.nodes false) ⊆ queries ((expr.resolveWith table).value.nodes false) := by
  by_cases isTerm : expr.isResolved = true
  · rw [Expr.resolveWith_eq_resolve isTerm] at calm ⊢
    exact (expr.traced untagged _).subset_queries calm
  · cases expr with
    | unresolved fragments range =>
        intro query asked
        rcases mem_queries.mp asked with ⟨source, isSource, asks⟩
        rcases List.mem_cons.mp isSource with rfl | inList
        · cases asks
        · rcases mem_nodesOfEach.mp inList with ⟨fragment, isFragment, inside⟩
          have noWord := Expr.word?_of_mem_nodes inside (Expr.word?_of_query? asks)
          rcases exists_resolution_of_list calm isFragment noWord with ⟨domain, quiet, resolved⟩
          have inner := (allUntagged_cons.mp untagged).2.of_mem isFragment
          have traced := fragment.traced inner domain
          have kept := traced.subset_queries quiet (mem_queries.mpr ⟨source, inside, asks⟩)
          rcases mem_queries.mp kept with ⟨node, isNode, nodeAsks⟩
          exact mem_queries.mpr ⟨node, resolved node isNode, nodeAsks⟩
    | _ => exact absurd rfl isTerm

end

/-! ## Dependencies -/

/-- A tree depends on no symbol that the expression does not depend on, by whatever table it is
resolved, those of the domains included, and whichever symbols are resolvable.  As long as nothing
is reported, both depend on the same symbols. -/
theorem undefinedSymbols_resolveWith {expr : Expr}
    (untagged : ∀ node ∈ expr.nodes false, node.domain? = none) (table : OperatorTable)
    (resolvable : Attribute → String → Bool) :
    let resolved := expr.resolveWith table
    (∀ name ∈ resolved.value.undefinedSymbols resolvable, name ∈ expr.undefinedSymbols resolvable) ∧
      (resolved.diagnostics = [] →
        (resolved.value.undefinedSymbols resolvable).toList =
          (expr.undefinedSymbols resolvable).toList) := by
  intro resolved
  have added {name : String} (collected : name ∈ resolved.value.undefinedSymbols resolvable) :
      name ∈ expr.undefinedSymbols resolvable :=
    undefinedSymbols_subset_of_surface (Expr.queries_resolveWith_subset untagged table) collected
  constructor
  · intro name collected
    exact added collected
  · intro calm
    have kept := Expr.queries_subset_resolveWith untagged table calm
    have lost {name : String} (collected : name ∈ expr.undefinedSymbols resolvable) :
        name ∈ resolved.value.undefinedSymbols resolvable :=
      undefinedSymbols_subset_of_surface kept collected
    apply Std.TreeSet.equiv_iff_toList_eq.mp
    apply Std.TreeSet.Equiv.of_forall_mem_iff
    intro name
    exact ⟨added, lost⟩

/-- The list of the values `&X(L'B)` and `A` as a string, joined with the type of `C`. -/
def listOfValues : Expr :=
  .unresolved
    [.string
      ⟨none,
        [.sublist
          [[.variableItem
            ⟨.basic "X",
              [.unresolved [.symbolAttribute .length "B" (.columns 5 8) none] (.columns 5 8)],
              .columns 2 9⟩],
          [.text "A"]]],
        .whole⟩
      (.columns 0 13) none,
    .symbol "." (.columns 13 14) none,
    .symbolAttribute .type "C" (.columns 14 17) none]
    (.columns 0 17)

/-- The tree depends on `B` and on `C`, as long as nothing is known about them. -/
theorem undefinedSymbols_resolveWith_values :
    let resolved := listOfValues.resolveWith .character
    resolved.diagnostics = [] ∧
      (resolved.value.undefinedSymbols fun _ _ => false).toList = ["B", "C"] := by
  intro resolved
  have untagged : ∀ node ∈ listOfValues.nodes false, node.domain? = none := by decide
  have calm : resolved.diagnostics = [] := by
    change (listOfValues.resolveWith .character).diagnostics = []
    cbv
  rcases undefinedSymbols_resolveWith untagged .character fun _ _ => false with ⟨_, same⟩
  constructor
  · exact calm
  · rw [same calm]
    cbv

end ConditionalAssembly
