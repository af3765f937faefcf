import Mathlib
import ConditionalAssembly.Context
import ConditionalAssembly.Proofs.Resolution.Tree

/-!
# Resolving again

Resolving gives an expression a domain, if it has none, and what has a domain
is not resolved any further.  So only the first of several tables counts, also
when a list formed no expression and was replaced.
-/

namespace ConditionalAssembly

/-- What has a domain is left alone, and nothing is found in it. -/
theorem Expr.resolveWith_of_domain {expr : Expr} {domain : Domain}
    (has : expr.domain? = some domain) (table : OperatorTable) :
    expr.resolveWith table = pure expr := by
  cases expr with
  | unresolved _ _ => cases has
  | string term _ _ =>
      rcases term with ⟨_, _, ⟨_, _, _⟩⟩
      cases has
      rfl
  | constant _ _ _ | symbol _ _ _ | symbolAttribute _ _ _ _ | variableAttribute _ _ _ _ =>
      cases has
      rfl
  | variableTerm _ _ =>
      cases has
      rfl
  | resolved _ _ _ _ | unary _ _ _ _ _ | binary _ _ _ _ _ _ => rfl

/-- Resolving changes exactly what has no domain. -/
theorem Expr.resolveWith_eq_pure_iff {expr : Expr} {table : OperatorTable} :
    expr.resolveWith table = pure expr ↔ expr.domain?.isSome := by
  constructor
  · intro unchanged
    have resolved := expr.domain?_resolveWith table
    rw [unchanged, Reported.value_pure] at resolved
    rw [resolved]
    rfl
  · intro has
    obtain ⟨domain, isDomain⟩ := Option.isSome_iff_exists.mp has
    exact Expr.resolveWith_of_domain isDomain table

/-- Resolves an expression by several tables, one after the other. -/
def Context.resolveByAll (context : Context) (tables : List OperatorTable) (expr : Expr) :
    Expr × Context :=
  tables.foldl (fun resolved table => resolved.2.resolveWith table resolved.1) (expr, context)

/-- Tables leave alone what has a domain. -/
theorem Context.resolveByAll_of_domain {expr : Expr} {domain : Domain}
    (has : expr.domain? = some domain) (context : Context) (tables : List OperatorTable) :
    context.resolveByAll tables expr = (expr, context) := by
  induction tables with
  | nil => rfl
  | cons table later ih =>
      have once : context.resolveWith table expr = (expr, context) := by
        rw [Context.resolveWith, Expr.resolveWith_of_domain has]
        simp [Context.record]
      rw [resolveByAll, List.foldl_cons, once]
      exact ih

/-- Resolving gives an expression a domain, and then it is not changed by resolving it again, by
whatever table, and nothing is found; so of several tables only the first counts. -/
theorem resolveWith_resolveWith (expr : Expr) (first : OperatorTable) :
    (expr.resolveWith first).value.domain? = some (expr.domain?.getD first.domain) ∧
      (∀ second : OperatorTable, (expr.resolveWith first).value.resolveWith second =
        ⟨(expr.resolveWith first).value, []⟩) ∧
      ∀ (context : Context) (later : List OperatorTable),
        context.resolveByAll (first :: later) expr = context.resolveWith first expr := by
  have has := expr.domain?_resolveWith first
  refine ⟨has, ?_, ?_⟩
  · intro second
    exact Expr.resolveWith_eq_pure_iff.mpr (Option.isSome_of_mem has)
  · intro context later
    exact Context.resolveByAll_of_domain has _ later

end ConditionalAssembly
