import ConditionalAssembly.Context
import ConditionalAssembly.Proofs.Evaluation.Agreement
import ConditionalAssembly.Proofs.Evaluation.Problems

/-!
# Evaluating on one context

Every node settles what it computes, so a value always belongs to the domain
of its tree and is never too long.  A context lends its store to each tree in
turn and only collects what they report: evaluating a tree leaves nothing
behind that another tree, or the same one later, could find.
-/

namespace ConditionalAssembly

/-- A text has no more characters than a value may have. -/
def Value.Fits : Value → Prop
  | .character text => text.length ≤ maxLength
  | .arithmetic _ | .binary _ => True

/-! ## Values -/

namespace Evaluation

theorem fits_default (domain : Domain) : domain.default.Fits := by
  cases domain with
  | arithmetic => trivial
  | binary => trivial
  | character => exact Nat.zero_le _

/-- A value whose text was cut is not too long. -/
theorem fits_limited (range : Range) (value : Value) : (limited range value).value.Fits := by
  cases value with
  | arithmetic _ => trivial
  | binary _ => trivial
  | character text =>
      by_cases short : text.length ≤ Value.maxLength
      · rw [limited, if_pos short]
        exact short
      · rw [limited, if_neg short]
        change (String.ofList _).length ≤ Value.maxLength
        rw [String.length_ofList]
        exact List.length_take_le Value.maxLength text.toList

/-- Bringing a value into a domain does not make it longer than allowed. -/
theorem fits_conform (expected : Domain) (range : Range) {value : Value} (fits : value.Fits) :
    (conform expected range value).value.Fits := by
  unfold conform
  split
  next => exact fits
  next =>
    split
    next => trivial
    next => trivial
    next => exact fits_default expected

/-- A settled value is not too long. -/
theorem fits_settle (domain : Option Domain) (range : Range)
    (computed : Reported (Except Problem Value)) : (settle domain range computed).value.Fits := by
  cases domain with
  | none => trivial
  | some domain =>
      cases outcome : computed.value with
      | ok value => simpa [settle, outcome] using fits_conform domain range (fits_limited range value)
      | error problem => simpa [settle, outcome] using fits_default domain

end Evaluation

open Evaluation

theorem Expr.exists_settle (store : Store) (expr : Expr) :
    ∃ computed, expr.evaluate store = settle expr.domain? expr.range computed := by
  cases expr <;> exact ⟨_, by rw [Expr.evaluate, Expr.domain?, Expr.range]⟩

theorem Expr.domain_evaluate (store : Store) (expr : Expr) :
    (expr.evaluate store).value.domain = expr.domain?.getD .arithmetic := by
  rcases expr.exists_settle store with ⟨computed, settled⟩
  rw [settled, domain_settle]

/-- The value of a tree is not too long. -/
theorem Expr.fits_evaluate (store : Store) (expr : Expr) : (expr.evaluate store).value.Fits := by
  rcases expr.exists_settle store with ⟨computed, settled⟩
  rw [settled]
  exact fits_settle _ _ computed

/-! ## Requests -/

/-- A tree to be evaluated, and the domain its value is required of, if any. -/
structure Request where
  expr : Expr
  required : Option Domain := none

namespace Request

/-- The domain of the value that is asked for. -/
def domain (request : Request) : Domain :=
  request.required.getD (request.expr.domain?.getD .arithmetic)

/-- What a request yields against a store. -/
def result (request : Request) (store : Store) : Reported Value :=
  match request.required with
  | none => request.expr.evaluate store
  | some expected => request.expr.evaluateAs store expected

theorem domain_result (request : Request) (store : Store) :
    (request.result store).value.domain = request.domain := by
  rcases request with ⟨expr, required⟩
  cases required with
  | none => exact expr.domain_evaluate store
  | some expected => exact expr.domain_evaluateAs store expected

/-- A request yields no text that is too long. -/
theorem fits_result (request : Request) (store : Store) : (request.result store).value.Fits := by
  rcases request with ⟨expr, required⟩
  cases required with
  | none => exact expr.fits_evaluate store
  | some expected => exact fits_conform expected expr.range (expr.fits_evaluate store)

theorem result_eq_of_agrees {first second : Store} (agrees : first.Agrees second)
    (request : Request) : request.result first = request.result second := by
  rcases request with ⟨expr, required⟩
  cases required with
  | none => exact expr.evaluate_eq_of_agrees agrees
  | some expected => simp only [result, Expr.evaluateAs, expr.evaluate_eq_of_agrees agrees]

/-- A request reports what its tree may report. -/
theorem within_result {allowed : Problem → Prop} (request : Request) (store : Store)
    (allows : Allows allowed (request.expr.nodes true)) :
    (request.result store).Within allowed := by
  rcases request with ⟨expr, required⟩
  have within : (expr.evaluate store).Within allowed := expr.within_evaluate allows
  cases required with
  | none => exact within
  | some expected => exact within.bind (within_conform allows expected expr.range _)

end Request

/-! ## Contexts -/

namespace Context

/-- Evaluates the tree of a request. -/
def perform (context : Context) (request : Request) : Value × Context :=
  match request.required with
  | none => context.evaluate request.expr
  | some expected => context.evaluateAs expected request.expr

/-- Evaluates the trees of some requests one after the other. -/
def performAll (context : Context) : List Request → List Value × Context
  | [] => ([], context)
  | request :: rest =>
      let first := context.perform request
      let others := first.2.performAll rest
      (first.1 :: others.1, others.2)

theorem perform_eq_record (context : Context) (request : Request) :
    context.perform request = context.record (request.result context.store) := by
  rcases request with ⟨expr, required⟩
  cases required <;> rfl

/-- Performing requests gives each its own value and adds its own diagnostics,
whatever was performed before. -/
theorem performAll_eq (context : Context) (requests : List Request) :
    context.performAll requests =
      (requests.map fun request => (request.result context.store).value,
        ⟨context.store, context.diagnostics ++
          requests.flatMap fun request => (request.result context.store).diagnostics⟩) := by
  induction requests generalizing context with
  | nil => simp [performAll]
  | cons request rest ih =>
      rw [performAll, perform_eq_record, record, ih]
      simp only [List.map_cons, List.flatMap_cons, List.append_assoc]

end Context

/-- Evaluation contract: a context with the variables and symbols of `context`,
whatever else was reported to it, gives each tree one and the same value, of
the right domain and not too long, and one and the same list of further
diagnostics.  It does so in every sequence of evaluations, and keeps its store. -/
theorem evaluation_contract (context : Context) :
    ∃ (value : Request → Value) (added : Request → List Diagnostic),
      (∀ request, (value request).domain = request.domain ∧ (value request).Fits) ∧
      ∀ other : Context, other.store.Agrees context.store →
        (∀ request, other.perform request =
          (value request, ⟨other.store, other.diagnostics ++ added request⟩)) ∧
        ∀ requests, other.performAll requests =
          (requests.map value, ⟨other.store, other.diagnostics ++ requests.flatMap added⟩) := by
  refine ⟨fun request => (request.result context.store).value,
    fun request => (request.result context.store).diagnostics, ?_, ?_⟩
  · intro request
    exact ⟨request.domain_result context.store, request.fits_result context.store⟩
  · intro other agrees
    have same (request : Request) := request.result_eq_of_agrees agrees
    constructor
    · intro request
      rw [Context.perform_eq_record, same, Context.record]
    · intro requests
      simp only [Context.performAll_eq, same]

end ConditionalAssembly
