import ConditionalAssembly.Proofs.Resolution.Erasure

/-!
# Places do not matter for evaluation

A tree is evaluated by its structure.  Where its nodes stand only decides where
problems are reported, so an erased tree has the same value and reports the
same problems.  Together with the same fact about resolution, a text and the
places of its parts may be forgotten once its fragments are known.
-/

namespace ConditionalAssembly

open Reported Evaluation

mutual

/-- An erased tree has the same value and reports the same problems. -/
theorem Expr.alike_evaluate_erase (store : Store) : ∀ expr : Expr,
    (expr.evaluate store).Alike (expr.erase.evaluate store)
  | .constant _ range domain | .symbol _ range domain | .symbolAttribute _ _ range domain => by
      rw [Expr.erase, Expr.evaluate, Expr.evaluate]
      exact alike_settle (.refl _) domain range .nowhere
  | .variableTerm reference domain => by
      rw [Expr.erase, Expr.evaluate, Expr.evaluate]
      exact alike_settle (reference.alike_evaluate_erase store) domain _ _
  | .variableAttribute kind reference range domain => by
      rw [Expr.erase, Expr.evaluate, Expr.evaluate]
      exact alike_settle (reference.alike_evaluateAttribute_erase store kind) domain range .nowhere
  | .string term range domain => by
      have text := term.alike_evaluate_erase store range .nowhere
      rw [Expr.erase, Expr.evaluate, Expr.evaluate]
      exact alike_settle (text.map _) domain range .nowhere
  | .unresolved _ range => by
      rw [Expr.erase, Expr.evaluate, Expr.evaluate]
      exact alike_settle (.refl _) none range .nowhere
  | .resolved root recovered range domain => by
      have inner := root.alike_evaluate_erase store
      rw [Expr.erase, Expr.evaluate, Expr.evaluate]
      apply alike_settle
      cases recovered with
      | true => exact .refl _
      | false => exact inner.map _
  | .unary operator operand range domain operandDomain =>
      Expr.alike_evaluate_unary domain operandDomain range .nowhere
        (operand.alike_evaluate_erase store) operator
  | .binary operator left right range domain operandDomain =>
      Expr.alike_evaluate_binary domain operandDomain range .nowhere
        (left.alike_evaluate_erase store) (right.alike_evaluate_erase store) operator

theorem VariableSymbol.alike_evaluate_erase (store : Store) : ∀ reference : VariableSymbol,
    (reference.evaluate store).Alike (reference.erase.evaluate store)
  | ⟨name, subscript, _⟩ => by
      have indices := alike_evaluateWords_erase store subscript
      rw [VariableSymbol.erase, VariableSymbol.evaluate, VariableSymbol.evaluate]
      apply (name.alike_evaluate_erase store).bind
      intro text
      exact indices.bind fun _ => .refl _

theorem VariableSymbol.alike_evaluateAttribute_erase (store : Store) (kind : Attribute) :
    ∀ reference : VariableSymbol,
      (reference.evaluateAttribute store kind).Alike (reference.erase.evaluateAttribute store kind)
  | ⟨name, subscript, _⟩ => by
      have indices := alike_evaluateWords_erase store subscript
      rw [VariableSymbol.erase, VariableSymbol.evaluateAttribute,
        VariableSymbol.evaluateAttribute]
      apply (name.alike_evaluate_erase store).bind
      intro text
      by_cases counts : kind = .number
      · simp only [if_pos counts]
        exact .refl _
      · simp only [if_neg counts]
        exact indices.bind fun _ => .refl _

theorem VariableName.alike_evaluate_erase (store : Store) : ∀ name : VariableName,
    (name.evaluate store).Alike (name.erase.evaluate store)
  | .basic _ => .refl _
  | .created chain => by
      rw [VariableName.erase, VariableName.evaluate, VariableName.evaluate]
      exact (alike_evaluateChain_erase store chain).map _

theorem StringTerm.alike_evaluate_erase (store : Store) (range other : Range) :
    ∀ term : StringTerm, (term.evaluate store range).Alike (term.erase.evaluate store other)
  | ⟨none, chain, selection⟩ => by
      rw [StringTerm.erase, eraseOption, StringTerm.evaluate, StringTerm.evaluate]
      apply (alike_evaluateChain_erase store chain).bind
      intro text
      exact selection.alike_evaluate_erase store text
  | ⟨some factor, chain, selection⟩ => by
      have copies := alike_number (factor.alike_evaluate_erase store) factor.range
        factor.erase.range
      rw [StringTerm.erase, eraseOption, StringTerm.evaluate, StringTerm.evaluate]
      apply (alike_evaluateChain_erase store chain).bind
      intro text
      apply (selection.alike_evaluate_erase store text).bind
      intro selected
      cases selected with
      | error problem => exact .refl _
      | ok selected => exact copies.bind fun count => alike_duplicate range other selected count

theorem Selection.alike_evaluate_erase (store : Store) (text : String) : ∀ selection : Selection,
    (selection.evaluate store text).Alike (selection.erase.evaluate store text)
  | ⟨none, _, _⟩ => by
      rw [Selection.erase, eraseOption, Selection.evaluate, Selection.evaluate]
      exact .refl _
  | ⟨some start, none, _⟩ => by
      have first := alike_number (start.alike_evaluate_erase store) start.range start.erase.range
      rw [Selection.erase, eraseOption, eraseOption, Selection.evaluate, Selection.evaluate]
      exact first.bind fun _ => .refl _
  | ⟨some start, some count, toEnd⟩ => by
      have first := alike_number (start.alike_evaluate_erase store) start.range start.erase.range
      have counted := alike_number (count.alike_evaluate_erase store) count.range count.erase.range
      rw [Selection.erase, eraseOption, eraseOption, Selection.evaluate, Selection.evaluate]
      apply first.bind
      intro position
      cases toEnd with
      | true =>
          simp only [if_true]
          exact .refl _
      | false =>
          simp only [Bool.false_eq_true, if_false]
          exact counted.bind fun _ => .refl _

theorem ChainItem.alike_evaluate_erase (store : Store) : ∀ item : ChainItem,
    (item.evaluate store).Alike (item.erase.evaluate store)
  | .text _ | .dot | .equals => .refl _
  | .variableItem reference => by
      rw [ChainItem.erase, ChainItem.evaluate, ChainItem.evaluate]
      apply (reference.alike_evaluate_erase store).bind
      rintro (problem | value)
      · exact ⟨rfl, rfl⟩
      · exact .refl _
  | .sublist members => by
      rw [ChainItem.erase, ChainItem.evaluate, ChainItem.evaluate]
      exact alike_evaluateMembers_erase store members

theorem alike_evaluateChain_erase (store : Store) : ∀ chain : List ChainItem,
    (evaluateChain store chain).Alike (evaluateChain store (eraseChain chain))
  | [] => .refl _
  | item :: rest => by
      have others := alike_evaluateChain_erase store rest
      rw [eraseChain, evaluateChain, evaluateChain]
      apply (item.alike_evaluate_erase store).bind
      intro text
      exact others.bind fun _ => .refl _

theorem alike_evaluateMembers_erase (store : Store) : ∀ members : List (List ChainItem),
    (evaluateMembers store members).Alike (evaluateMembers store (eraseMembers members))
  | [] => .refl _
  | chain :: rest => by
      have others := alike_evaluateMembers_erase store rest
      rw [eraseMembers, evaluateMembers, evaluateMembers]
      apply (alike_evaluateChain_erase store chain).bind
      intro text
      exact others.bind fun _ => .refl _

theorem alike_evaluateWords_erase (store : Store) : ∀ exprs : List Expr,
    (evaluateWords store exprs).Alike (evaluateWords store (eraseEach exprs))
  | [] => .refl _
  | expr :: rest => by
      have first := alike_number (expr.alike_evaluate_erase store) expr.range expr.erase.range
      have others := alike_evaluateWords_erase store rest
      rw [eraseEach, evaluateWords, evaluateWords]
      apply first.bind
      intro word
      exact others.bind fun _ => .refl _

end

theorem alike_evaluate_of_erase_eq {first second : Expr} (same : first.erase = second.erase)
    (store : Store) : (first.evaluate store).Alike (second.evaluate store) :=
  (same ▸ first.alike_evaluate_erase store).trans (second.alike_evaluate_erase store).symm

/-- Expressions that differ in their places only are calculated alike. -/
theorem alike_calculate_of_erase_eq {first second : Expr} (same : first.erase = second.erase)
    (domain : Domain) (store : Store) :
    (first.resolve domain >>= Expr.evaluate store).Alike
      (second.resolve domain >>= Expr.evaluate store) := by
  have resolved := alike_resolve_of_erase_eq same domain
  have evaluated := alike_evaluate_of_erase_eq resolved.value store
  constructor
  · exact evaluated.value
  · have problems := resolved.problems
    rw [problems_map, problems_map] at problems
    rw [problems_bind, problems_bind, problems, evaluated.problems]

end ConditionalAssembly
