import ConditionalAssembly.Proofs.Phrase.InPlace
import ConditionalAssembly.Proofs.Resolution.Tree

/-!
# Resolving a list in place

A list can be resolved by a cursor that goes over its fragments where they
stand.  Every call of the cursor finds all fragments from its index on in place
and gives the tree of what it went over, or meets a fault of the list; it never
takes an operand that is gone, leaves the list, or builds a node from a line of
the wrong kind.  What is reported is what `Expr.resolveWith` reports.
-/

namespace ConditionalAssembly

open Phrase Cursor

/-- The diagnostic of a halt in a list at a range.  An index that no slot has is not reported. -/
def Phrase.Cursor.Halt.diagnostic? (ranges : List Range) (range : Range) : Halt → Option Diagnostic
  | .emptyList => some ⟨.missingOperand, range⟩
  | .missingOperand _ anchor => some ⟨.missingOperand, anchor⟩
  | .invalidOperator | .wrongKind => some ⟨.invalidOperator, range⟩
  | .emptySlot index => ranges[index]?.map fun place => ⟨.missingOperand, place⟩
  | .outOfRange _ => none

/-- A halt that fits a fault is reported as the fault is. -/
theorem Phrase.Cursor.Halt.Fits.diagnostic?_eq {fragments : List Expr} {halt : Halt} {fault : Fault}
    (fits : halt.Fits Expr.range fragments fault) (ranges : List Range) (range : Range) :
    halt.diagnostic? ranges range = some (faultDiagnostic fragments range fault) := by
  cases fits with
  | emptyList empty =>
      subst empty
      rfl
  | missingOperand isLast =>
      rw [faultDiagnostic, isLast]
      rfl
  | invalidOperator => rfl

/-- However a list is resolved in place, the cursor goes on with every call, and all fragments from
its index on are in place.  The call gives what stands up to an operator that binds no tighter than
its limit and has moved the operands of that out, or it ends with a fault of the list.  So does the
list as a whole, and it is resolved accordingly. -/
theorem resolve_list_in_place (table : OperatorTable) (fragments : List Expr) (range : Range) :
    let ranges := fragments.map Expr.range
    let run := Cursor.ofItems table Expr.word? Expr.range fragments
    let resolution := (Expr.unresolved fragments range).resolveWith table
    run.calls.head? = fragments.head?.map (fun _ => Call.outermost fragments) ∧
    (run.calls.map Call.index).Pairwise (· < ·) ∧
    run.calls.length ≤ fragments.length + 1 ∧
    (∀ call ∈ run.calls,
      call.Ready fragments ∧
      call.Ends table Expr.word? Expr.range fragments
        ((Phrase.term table Expr.word? call.limit (fragments.drop call.index)).map Reading.pair)
        (call.outcome table Expr.word? ranges)) ∧
    match run.outcome with
    | .ok phrase =>
        resolution.value = .resolved (phrase.tree table.domain) false range table.domain
    | .error halt =>
        (∃ fault, halt.Fits Expr.range fragments fault) ∧
        resolution.value =
          .resolved (.constant 0 range (some table.domain)) true range table.domain ∧
        resolution.diagnostics.getLast? = halt.diagnostic? ranges range := by
  obtain ⟨advance, agrees⟩ := ofItems_follows table Expr.word? Expr.range fragments
  refine ⟨head?_calls_ofItems table _ _ fragments, advance.increasing, ?_, ?_, ?_⟩
  · simpa using advance.count
  · intro call isCall
    have ready := advance.ready call isCall
    have nonempty : fragments ≠ [] := by
      rintro rfl
      cases isCall
    exact ⟨ready, ready.ends nonempty⟩
  · generalize (Cursor.ofItems table Expr.word? Expr.range fragments).outcome = ended at agrees ⊢
    cases read : Phrase.ofItems table Expr.word? fragments with
    | ok phrase =>
        rw [read] at agrees
        cases agrees
        exact congrArg Reported.value (resolveWith_of_phrase read range)
    | error failure =>
        rw [read] at agrees
        cases agrees with
        | fault fits =>
            have whole := resolveWith_of_failure read range
            refine ⟨⟨_, fits⟩, congrArg Reported.value whole, ?_⟩
            rw [whole, fits.diagnostic?_eq]
            exact List.getLast?_concat

/-- In `3 + 4 * 2` a term is read from each number on, each under the operator in front of it. -/
example :
    (Cursor.ofItems .arithmetic Expr.word? Expr.range
      [.constant 3 (.columns 0 1) none, .symbol "+" (.columns 2 3) none,
        .constant 4 (.columns 4 5) none, .symbol "*" (.columns 6 7) none,
        .constant 2 (.columns 8 9) none]).calls.map (fun call => (call.index, call.limit)) =
      [(0, 2147483647), (2, 4), (4, 3)] := by
  cbv

end ConditionalAssembly
