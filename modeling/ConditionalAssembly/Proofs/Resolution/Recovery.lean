import Mathlib
import ConditionalAssembly.Proofs.Evaluation.Requests
import ConditionalAssembly.Proofs.Resolution.Acceptance
import ConditionalAssembly.Proofs.Resolution.Tags

/-!
# What is reported about lists that are replaced

Resolution reports faults of lists and nothing else, and it reports at least
one wherever it leaves a list that was replaced.  A list inside one that is
replaced later disappears, but then the outer list is reported.  Evaluation
takes over from there: it finds no further fault of a list, and of a list that
was replaced it says nothing.
-/

namespace ConditionalAssembly

/-- What was reported about some nodes are faults of lists, and there is one exactly when a list
among them was replaced. -/
structure Accounts (diagnostics : List Diagnostic) (nodes : List Expr) : Prop where
  structural : ∀ diagnostic ∈ diagnostics, diagnostic.problem.IsStructural
  silent_iff : diagnostics = [] ↔ ∀ node ∈ nodes, node.isRecovered = false

namespace Accounts

variable {diagnostics : List Diagnostic} {nodes : List Expr}

theorem nil : Accounts [] [] where
  structural := nofun
  silent_iff := by simp

theorem append {moreDiagnostics : List Diagnostic} {moreNodes : List Expr}
    (left : Accounts diagnostics nodes) (right : Accounts moreDiagnostics moreNodes) :
    Accounts (diagnostics ++ moreDiagnostics) (nodes ++ moreNodes) where
  structural := List.forall_mem_append.mpr ⟨left.structural, right.structural⟩
  silent_iff := by
    rw [List.append_eq_nil_iff, left.silent_iff, right.silent_iff, List.forall_mem_append]

/-- A node that was not replaced needs no diagnostic. -/
theorem cons (accounts : Accounts diagnostics nodes) {node : Expr}
    (genuine : node.isRecovered = false) : Accounts diagnostics (node :: nodes) where
  structural := accounts.structural
  silent_iff := by
    rw [accounts.silent_iff, List.forall_mem_cons]
    exact (and_iff_right genuine).symm

/-- The order of the diagnostics does not matter. -/
theorem of_perm (accounts : Accounts diagnostics nodes) {reordered : List Diagnostic}
    (same : reordered.Perm diagnostics) : Accounts reordered nodes where
  structural diagnostic found := accounts.structural diagnostic (same.mem_iff.mp found)
  silent_iff := by
    rw [← accounts.silent_iff]
    constructor
    · rintro rfl
      exact List.nil_perm.mp same
    · rintro rfl
      exact List.perm_nil.mp same

/-- A step that reports nothing may follow. -/
theorem padded (accounts : Accounts diagnostics nodes) : Accounts (diagnostics ++ []) nodes := by
  rwa [List.append_nil]

end Accounts

/-! ## Lists -/

/-- What is reported while an expression is resolved accounts for the tree. -/
def Expr.IsAccounted (expr : Expr) : Prop :=
  ∀ domain, Accounts (expr.resolve domain).diagnostics
    ((expr.resolve domain).value.nodes false)

/-- What is reported about the operands of a phrase accounts for its tree. -/
theorem Phrase.accounts {phrase : Phrase Expr}
    (accounted : ∀ fragment ∈ phrase.operands, fragment.IsAccounted) (domain : Domain) :
    Accounts (reportedBy (phrase.built ++ phrase.pending domain))
      ((phrase.tree domain).nodes false) := by
  induction phrase generalizing domain with
  | operand fragment =>
      exact (accounted fragment (List.mem_singleton_self fragment) domain).padded
  | unary entry word inner ih =>
      rw [pending, List.append_nil]
      exact (ih accounted (unaryDomain entry)).cons rfl
  | binary entry words left right ihLeft ihRight =>
      rcases List.forall_mem_append.mp accounted with ⟨inLeft, inRight⟩
      let shared := binaryDomain entry left right
      have both := (ihLeft inLeft shared).append (ihRight inRight shared)
      rw [← reportedBy_append] at both
      rw [pending, List.append_nil]
      exact (both.cons rfl).of_perm ((built_binary_perm entry words left right).flatMap_right _)

/-- What is reported about a list accounts for its tree when it does so for its fragments. -/
theorem accounts_resolveWith {table : OperatorTable} (bounded : table.Bounded)
    {fragments : List Expr} (accounted : ∀ fragment ∈ fragments, fragment.IsAccounted)
    (range : Range) :
    Accounts ((Expr.unresolved fragments range).resolveWith table).diagnostics
      (((Expr.unresolved fragments range).resolveWith table).value.nodes false) := by
  rcases resolveWith_list_cases table fragments range with
    ⟨phrase, formed, resolved⟩ | ⟨recovered, reported⟩
  · rw [resolved]
    refine (Phrase.accounts ?_ table.domain).cons rfl
    intro fragment isOperand
    have isItem := Phrase.mem_items_of_mem_operands isOperand
    rw [Phrase.items_of_ofItems formed] at isItem
    exact accounted fragment isItem
  · have replaced : ((Expr.unresolved fragments range).resolveWith table).value.isRecovered := by
      rw [recovered]
      rfl
    constructor
    · rcases exists_fault_of_isRecovered bounded replaced with
        ⟨fault, resolutions, _, own, whole⟩
      rw [whole]
      intro diagnostic found
      rcases List.mem_append.mp found with inFragment | isFault
      · rcases List.mem_flatMap.mp inFragment with ⟨resolution, isResolution, inside⟩
        have isFragment := own.subset (List.mem_map_of_mem isResolution)
        exact (accounted _ isFragment _).structural diagnostic inside
      · cases List.mem_singleton.mp isFault
        cases fault with
        | missingOperand => exact .inr rfl
        | invalidOperator => exact .inl rfl
    · constructor
      · intro silent
        exact absurd silent reported
      · intro genuine
        have own := genuine _ (Expr.mem_nodes_self false _)
        cases own.symm.trans replaced

/-! ## Trees -/

mutual

/-- What is reported while an expression without domains is resolved accounts for the tree. -/
theorem Expr.accounted : ∀ expr : Expr, AllUntagged (expr.nodes false) → expr.IsAccounted
  | .constant _ _ _, _ | .symbol _ _ _, _ | .symbolAttribute _ _ _ _, _
  | .variableAttribute _ _ _ _, _ => fun _ => Accounts.nil.cons rfl
  | .variableTerm reference none, untagged => by
      have inner := reference.accounted (allUntagged_cons.mp untagged).2
      exact fun _ => inner.padded.cons rfl
  | .string ⟨duplication, chain, ⟨start, count, toEnd⟩⟩ range none, untagged => by
      rcases allUntagged_append.mp (allUntagged_cons.mp untagged).2 with ⟨outer, bounds⟩
      rcases allUntagged_append.mp outer with ⟨factor, pieces⟩
      rcases allUntagged_append.mp bounds with ⟨first, second⟩
      have text := (accounted_number duplication factor).append (accounted_chain chain pieces)
      have selected := (accounted_number start first).append (accounted_number count second)
      intro domain
      refine ((text.append selected).cons rfl).of_perm ?_
      -- The chain is resolved before the duplication factor.
      simp only [Expr.resolve, Expr.resolveWith, Reported.diagnostics_bind,
        Reported.diagnostics_pure, List.append_nil]
      rw [List.append_assoc]
      exact List.perm_append_comm_assoc _ _ _
  | .unresolved fragments range, untagged => fun domain =>
      accounts_resolveWith (OperatorTable.bounded_ofDomain domain)
        (accounted_each fragments (allUntagged_cons.mp untagged).2) range
  | .variableTerm _ (some _), untagged | .string _ _ (some _), untagged
  | .resolved _ _ _ _, untagged | .unary _ _ _ _ _, untagged | .binary _ _ _ _ _ _, untagged =>
      nomatch (allUntagged_cons.mp untagged).1

theorem VariableSymbol.accounted :
    ∀ reference : VariableSymbol, AllUntagged (reference.nodes false) →
      Accounts reference.resolve.diagnostics (reference.resolve.value.nodes false)
  | ⟨.basic _, subscript, _⟩, untagged => by
      exact (accounted_numbers subscript (allUntagged_append.mp untagged).2).padded
  | ⟨.created chain, subscript, _⟩, untagged => by
      rcases allUntagged_append.mp untagged with ⟨pieces, indices⟩
      exact (accounted_chain chain pieces).append (accounted_numbers subscript indices).padded

theorem ChainItem.accounted :
    ∀ item : ChainItem, AllUntagged (item.nodes false) →
      Accounts item.resolve.diagnostics (item.resolve.value.nodes false)
  | .text _, _ | .dot, _ | .equals, _ => .nil
  | .variableItem reference, untagged => (reference.accounted untagged).padded
  | .sublist members, untagged => (accounted_members members untagged).padded

theorem accounted_chain :
    ∀ chain : List ChainItem, AllUntagged (nodesOfChain false chain) →
      Accounts (resolveChain chain).diagnostics (nodesOfChain false (resolveChain chain).value)
  | [], _ => .nil
  | item :: rest, untagged => by
      rcases allUntagged_append.mp untagged with ⟨first, others⟩
      exact (item.accounted first).append (accounted_chain rest others).padded

theorem accounted_members :
    ∀ members : List (List ChainItem), AllUntagged (nodesOfMembers false members) →
      Accounts (resolveMembers members).diagnostics
        (nodesOfMembers false (resolveMembers members).value)
  | [], _ => .nil
  | chain :: rest, untagged => by
      rcases allUntagged_append.mp untagged with ⟨first, others⟩
      exact (accounted_chain chain first).append (accounted_members rest others).padded

theorem accounted_numbers :
    ∀ exprs : List Expr, AllUntagged (nodesOfEach false exprs) →
      Accounts (resolveNumbers exprs).diagnostics
        (nodesOfEach false (resolveNumbers exprs).value)
  | [], _ => .nil
  | expr :: rest, untagged => by
      rcases allUntagged_append.mp untagged with ⟨first, others⟩
      exact (expr.accounted first .arithmetic).append (accounted_numbers rest others).padded

theorem accounted_number :
    ∀ expr : Option Expr, AllUntagged (nodesOfOption false expr) →
      Accounts (resolveNumber expr).diagnostics
        (nodesOfOption false (resolveNumber expr).value)
  | none, _ => .nil
  | some expr, untagged => (expr.accounted untagged .arithmetic).padded

theorem accounted_each :
    ∀ fragments : List Expr, AllUntagged (nodesOfEach false fragments) →
      ∀ fragment ∈ fragments, fragment.IsAccounted
  | [], _ => nofun
  | fragment :: rest, untagged => by
      rcases allUntagged_append.mp untagged with ⟨first, others⟩
      exact List.forall_mem_cons.mpr ⟨fragment.accounted first, accounted_each rest others⟩

end

theorem Expr.isRecovered_eq_false_of_untagged {node : Expr} (untagged : node.domain? = none) :
    node.isRecovered = false := by
  cases node with
  | resolved _ _ _ _ => cases untagged
  | _ => rfl

/-! ## The two phases -/

/-- Evaluation reports no fault of a list. -/
theorem allows_evaluation (nodes : List Expr) :
    Allows (fun problem => ¬ problem.IsStructural) nodes where
  ordinary isOrdinary := (Problem.isOrdinary_iff.mp isOrdinary).1
  unresolved _ _ _ := by simp [Problem.IsStructural]

/-- A list that was replaced is worth the default of its domain. -/
theorem evaluate_recovered (store : Store) (root : Expr) (range : Range) (domain : Domain) :
    (Expr.resolved root true range domain).evaluate store = pure domain.default := by
  rw [Expr.evaluate]
  cases domain <;> rfl

/-- A front end hands over expressions in which no node has a domain.  Resolving one only reports
faults of lists, which have two codes of their own, and reports none exactly when no list in the
tree was replaced, however deep.  Evaluation never reports a fault of a list, and of a list that
was replaced it reports nothing at all. -/
theorem recovery_reported {expr : Expr} (untagged : ∀ node ∈ expr.nodes true, node.domain? = none)
    (domain : Domain) :
    let resolved := expr.resolve domain
    (∀ problem : Problem,
      problem.IsStructural ↔ problem.code = "CE001" ∨ problem.code = "CE003") ∧
    (∀ diagnostic ∈ resolved.diagnostics, diagnostic.problem.IsStructural) ∧
    (resolved.diagnostics = [] ↔
      ∀ node ∈ resolved.value.nodes true, node.isRecovered = false) ∧
    ∀ context : Context,
      (∀ request : Request, ∃ added,
        (context.perform request).2.diagnostics = context.diagnostics ++ added ∧
          ∀ diagnostic ∈ added, ¬ diagnostic.problem.IsStructural) ∧
      ∀ root range tag,
        context.evaluate (.resolved root true range tag) = (tag.default, context) := by
  intro resolved
  have accounts : Accounts resolved.diagnostics (resolved.value.nodes false) :=
    expr.accounted (fun node outside => untagged node (Expr.nodes_subset outside)) domain
  constructor
  · exact fun _ => Problem.isStructural_iff_code
  constructor
  · exact accounts.structural
  constructor
  · rw [accounts.silent_iff]
    constructor
    · intro genuine node isNode
      rcases Expr.mem_nodes_iff.mp isNode with outside | inside
      · exact genuine node outside
      · exact Expr.isRecovered_eq_false_of_untagged
          (untagged node (mem_nodes_of_inSubject untagged inside))
    · intro genuine node outside
      exact genuine node (Expr.nodes_subset outside)
  intro context
  constructor
  · intro request
    refine ⟨(request.result context.store).diagnostics, ?_, ?_⟩
    · rw [Context.perform_eq_record, Context.diagnostics_record]
    · exact request.within_result context.store (allows_evaluation _)
  · intro root range tag
    rw [Context.evaluate, evaluate_recovered, Context.record]
    simp

/-- What is read from `(3+)*&X(1 2)`. -/
def faultyProduct : Expr :=
  .unresolved
    [.unresolved [.constant 3 (.columns 1 2) none, .symbol "+" (.columns 2 3) none] (.columns 0 4),
      .symbol "*" (.columns 4 5) none,
      .variableTerm
        ⟨.basic "X",
          [.unresolved [.constant 1 (.columns 8 9) none, .constant 2 (.columns 10 11) none]
            (.columns 8 11)],
          .columns 5 12⟩ none]
    (.columns 0 12)

/-- In `(3+)*&X(1 2)` lists were replaced, since faults are reported. -/
theorem recovery_reported_product :
    let resolved := faultyProduct.resolve .arithmetic
    Expr.read "(3+)*&X(1 2)" = .ok faultyProduct ∧
      resolved.diagnostics =
        [⟨.missingOperand, .columns 3 4⟩, ⟨.invalidOperator, .columns 8 11⟩] ∧
      ¬ ∀ node ∈ resolved.value.nodes true, node.isRecovered = false := by
  intro resolved
  have read : Expr.read "(3+)*&X(1 2)" = .ok faultyProduct := by cbv
  have reported : resolved.diagnostics =
      [⟨.missingOperand, .columns 3 4⟩, ⟨.invalidOperator, .columns 8 11⟩] := by
    change (faultyProduct.resolve .arithmetic).diagnostics = _
    cbv
  have untagged : AllUntagged (faultyProduct.nodes true) := (Expr.allFresh_of_read read).untagged
  rcases recovery_reported untagged .arithmetic with ⟨_, _, silent, _⟩
  constructor
  · exact read
  constructor
  · exact reported
  · intro genuine
    cases reported.symm.trans (silent.mpr genuine)

end ConditionalAssembly
