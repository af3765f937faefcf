import Mathlib
import ConditionalAssembly.Context
import ConditionalAssembly.Proofs.Evaluation.Erasure
import ConditionalAssembly.Proofs.Expr.Moving
import ConditionalAssembly.Proofs.Phrase.Precedence

/-!
# Parentheses around an expression

Parentheses around a whole source make its list of fragments the only fragment
of another list.  The inner list is read from the same tokens, one column
further on.  The outer one is a phrase with a single operand, which resolves the
inner list to the domain asked for and has its value.
-/

namespace ConditionalAssembly

open Grammar

/-- A source between parentheses is read as a list of one list, which differs from what the source
is read as in its places only. -/
theorem Expr.read_parenthesized {source : String} {expr : Expr}
    (read : Expr.read source = .ok expr) :
    ∃ fragments range whole,
      Expr.read ("(" ++ source ++ ")") = .ok (.unresolved [.unresolved fragments range] whole) ∧
        (Expr.unresolved fragments range).erase = expr.erase := by
  obtain ⟨tokens, fragments, listed, derived, rfl⟩ := derives_read source expr read
  obtain ⟨close, closes, listedWhole⟩ := Token.listOf_parenthesized listed
  obtain ⟨others, moved, same⟩ := moved_fragments 1 derived
  have group := @Fragment.group ⟨.openParen, 0, 1⟩ _ _ _ rfl moved closes
  exact ⟨others, _, _, read_of_derives listedWhole group.single,
    by rw [Expr.erase, Expr.erase, same]⟩

/-- A list of one operand is resolved to a list around what the operand becomes. -/
theorem Expr.resolve_single {fragment : Expr} {domain : Domain}
    (notUnary : fragment.word?.bind (OperatorTable.ofDomain domain).unary? = none) (range : Range) :
    (Expr.unresolved [fragment] range).resolve domain =
      ⟨.resolved (fragment.resolve domain).value false range domain,
        (fragment.resolve domain).diagnostics⟩ := by
  have single : Phrase.ofItems (.ofDomain domain) Expr.word? [fragment] = .ok (.operand fragment) :=
    Phrase.ofItems_singleton (OperatorTable.bounded_ofDomain domain) notUnary
  rw [Expr.resolve, resolveWith_of_phrase single range, OperatorTable.domain_ofDomain]
  simp [Phrase.tree, Phrase.built, Phrase.pending, reportedBy]

theorem Expr.domain_resolve_list (fragments : List Expr) (range : Range) (domain : Domain) :
    ((Expr.unresolved fragments range).resolve domain).value.domain?.getD .arithmetic = domain := by
  rw [Expr.domain?_resolve]
  rfl

/-- A list of one operand, which has no domain yet, has the value of the operand. -/
theorem Expr.evaluate_single {fragment : Expr} (untagged : fragment.domain? = none)
    {domain : Domain}
    (notUnary : fragment.word?.bind (OperatorTable.ofDomain domain).unary? = none) (range : Range)
    (store : Store) :
    (Expr.unresolved [fragment] range).resolve domain >>= Expr.evaluate store =
      fragment.resolve domain >>= Expr.evaluate store := by
  have tagged : (fragment.resolve domain).value.domain?.getD .arithmetic = domain := by
    rw [Expr.domain?_resolve, untagged]
    rfl
  have evaluated := evaluate_resolved_of_domain store tagged range
  apply Reported.ext <;> simp [Expr.resolve_single notUnary, evaluated]

/-- Of a source that is read, the calculation records what its tree gives. -/
theorem Context.calculateSource_of_read {source : String} {fragments : List Expr} {range : Range}
    (read : Expr.read source = .ok (.unresolved fragments range)) (domain : Domain)
    (context : Context) :
    context.calculateSource domain source =
      .ok (context.record
        ((Expr.unresolved fragments range).resolve domain >>= Expr.evaluate context.store)) := by
  have tagged := Expr.domain_resolve_list fragments range domain
  have required := Expr.evaluateAs_of_domain context.store tagged
  rw [calculateSource, read]
  change Except.ok _ = _
  simp [evaluateAs, record, required]

/-- Parentheses around a whole source change nothing: it is calculated to the same value, and the
same problems are reported in the same order. -/
theorem calculateSource_parenthesized {source : String} {expr : Expr}
    (read : Expr.read source = .ok expr) (domain : Domain) (context : Context) :
    ∃ value plain wrapped,
      context.calculateSource domain source =
        .ok (value, { context with diagnostics := context.diagnostics ++ plain }) ∧
      context.calculateSource domain ("(" ++ source ++ ")") =
        .ok (value, { context with diagnostics := context.diagnostics ++ wrapped }) ∧
      wrapped.map Diagnostic.problem = plain.map Diagnostic.problem := by
  obtain ⟨tokens, fragments, _, _, rfl⟩ := derives_read source expr read
  obtain ⟨inner, range, whole, readWhole, same⟩ := Expr.read_parenthesized read
  have alike := alike_calculate_of_erase_eq same domain context.store
  have wrapped := context.calculateSource_of_read readWhole domain
  rw [Expr.evaluate_single rfl rfl] at wrapped
  refine ⟨_, _, _, context.calculateSource_of_read read domain, ?_, alike.problems⟩
  rw [wrapped, Context.record, alike.value]

/-- In `&A GT` an operand is missing, which is reported and answered with the false value; between
parentheses it is missing one column further on. -/
theorem calculateSource_parenthesized_missing :
    ∃ value plain wrapped,
      Context.calculateSource {} .binary "&A GT" = .ok (value, ⟨{}, plain⟩) ∧
      Context.calculateSource {} .binary "(&A GT)" = .ok (value, ⟨{}, wrapped⟩) ∧
      value = .binary false ∧ plain = [⟨.missingOperand, .columns 5 6⟩] ∧
      wrapped.map Diagnostic.problem = [.missingOperand] := by
  have read : Expr.read "&A GT" = .ok (.unresolved
      [.variableTerm ⟨.basic "A", [], .columns 0 2⟩ none, .symbol "GT" (.columns 3 5) none]
      (.columns 0 5)) := by cbv
  obtain ⟨value, plain, wrapped, calculated, calculatedWrapped, same⟩ :=
    calculateSource_parenthesized read .binary {}
  have calculatedIs : Context.calculateSource {} .binary "&A GT" =
      .ok (.binary false, ⟨{}, [⟨.missingOperand, .columns 5 6⟩]⟩) := by cbv
  cases calculatedIs.symm.trans calculated
  exact ⟨_, _, _, calculated, calculatedWrapped, rfl, rfl, same⟩

end ConditionalAssembly
