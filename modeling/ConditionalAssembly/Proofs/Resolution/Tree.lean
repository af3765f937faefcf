import Mathlib.Data.List.Perm.Subperm
import ConditionalAssembly.Proofs.Phrase.Renaming
import ConditionalAssembly.Resolution

/-!
# The tree of a list

The tree of a phrase can be written down without following the order in which
its nodes are built: every fragment that stands as an operand is resolved to
the domain its operator takes, and the nodes only combine the results.  The
diagnostics are those of the fragments, one after the other in the order of
the nodes.
-/

namespace ConditionalAssembly

/-- A fragment as an operand. -/
def Operand.ofFragment (fragment : Expr) : Operand :=
  ⟨fragment, fragment.resolve⟩

/-- Whether an expression stands in for fragments that form none. -/
def Expr.isRecovered : Expr → Bool
  | .resolved _ recovered _ _ => recovered
  | _ => false

/-- What is found while fragments are resolved, each to its domain. -/
def reportedBy (resolutions : List (Expr × Domain)) : List Diagnostic :=
  resolutions.flatMap fun resolution => (resolution.1.resolve resolution.2).diagnostics

@[simp]
theorem reportedBy_append (first second : List (Expr × Domain)) :
    reportedBy (first ++ second) = reportedBy first ++ reportedBy second :=
  List.flatMap_append

namespace Phrase

/-! ## Trees of phrases -/

/-- The phrase is seen to be a character value. -/
def isCharacter : Phrase Expr → Bool
  | .operand fragment => fragment.isCharacterOperand
  | .unary entry _ _ => entry.result = .character
  | .binary entry _ _ _ => entry.result = .character

/-- The domain to which the operand of a unary operator is resolved. -/
def unaryDomain (entry : OperatorEntry UnaryOperator) : Domain :=
  entry.operands.domain .arithmetic

/-- The domain to which the operands of a binary operator are resolved. -/
def binaryDomain (entry : OperatorEntry BinaryOperator) (left right : Phrase Expr) : Domain :=
  entry.operands.domain (if left.isCharacter || right.isCharacter then .character else .arithmetic)

/-- The expression a phrase stands for in a domain.  Only an operand that is a
fragment depends on the domain. -/
def tree (domain : Domain) : Phrase Expr → Expr
  | .operand fragment => (fragment.resolve domain).value
  | .unary entry word inner =>
      let operand := inner.tree (unaryDomain entry)
      .unary entry.operator operand (word.range.union operand.range) entry.result
        (unaryDomain entry)
  | .binary entry _ left right =>
      let leftTree := left.tree (binaryDomain entry left right)
      let rightTree := right.tree (binaryDomain entry left right)
      .binary entry.operator leftTree rightTree (leftTree.range.union rightTree.range) entry.result
        (binaryDomain entry left right)

/-! ## Fragments in the order in which they are resolved -/

/-- The fragment that is still to be resolved once a phrase is assembled. -/
def pending (domain : Domain) : Phrase Expr → List (Expr × Domain)
  | .operand fragment => [(fragment, domain)]
  | .unary _ _ _ | .binary _ _ _ _ => []

/-- The fragments that are resolved while a phrase is assembled, with their domains. -/
def built : Phrase Expr → List (Expr × Domain)
  | .operand _ => []
  | .unary entry _ inner => inner.built ++ inner.pending (unaryDomain entry)
  | .binary entry _ left right =>
      left.built ++ right.built ++ left.pending (binaryDomain entry left right) ++
        right.pending (binaryDomain entry left right)

theorem built_binary_perm (entry : OperatorEntry BinaryOperator) (words : List Expr)
    (left right : Phrase Expr) :
    (Phrase.binary entry words left right).built.Perm
      ((left.built ++ left.pending (binaryDomain entry left right)) ++
        (right.built ++ right.pending (binaryDomain entry left right))) := by
  simp only [built, List.append_assoc]
  exact (List.perm_append_comm_assoc _ _ _).append_left _

/-- A phrase resolves fragments of its own, each of them at most once. -/
theorem subperm_items (phrase : Phrase Expr) (domain : Domain) :
    ((phrase.built ++ phrase.pending domain).map Prod.fst).Subperm phrase.items := by
  induction phrase generalizing domain with
  | operand fragment => exact List.Subperm.refl _
  | unary entry word inner ih =>
      have inside := ih (unaryDomain entry)
      rw [built, pending, List.append_nil]
      exact inside.trans (List.sublist_cons_self word inner.items).subperm
  | binary entry words left right ihLeft ihRight =>
      let shared := binaryDomain entry left right
      have both := (ihLeft shared).append (ihRight shared)
      have between : (left.items ++ right.items).Sublist (left.items ++ words ++ right.items) :=
        (List.sublist_append_left _ _).append_right _
      have swap := (built_binary_perm entry words left right).map Prod.fst
      rw [pending, List.append_nil]
      refine (swap.subperm.trans ?_).trans between.subperm
      rwa [List.map_append]

/-- Phrases that were completed resolve fragments of their own, each at most once. -/
theorem flatMap_built_subperm (phrases : List (Phrase Expr)) :
    ((phrases.flatMap built).map Prod.fst).Subperm (phrases.flatMap items) := by
  induction phrases with
  | nil => exact List.Subperm.refl _
  | cons phrase rest ih =>
      have own : (phrase.built.map Prod.fst).Subperm phrase.items := by
        refine List.Subperm.trans ?_ (phrase.subperm_items .arithmetic)
        rw [List.map_append]
        exact (List.sublist_append_left _ _).subperm
      rw [List.flatMap_cons, List.flatMap_cons, List.map_append]
      exact own.append ih

end Phrase

/-! ## Assembling a phrase -/

namespace Operand

/-- An assembled operand is what a phrase stands for. -/
structure Assembles (phrase : Phrase Expr) (assembled : Reported Operand) : Prop where
  diagnostics : assembled.diagnostics = reportedBy phrase.built
  isCharacter : assembled.value.expr.isCharacterOperand = phrase.isCharacter
  resolve (domain : Domain) :
    assembled.value.resolve domain = ⟨phrase.tree domain, reportedBy (phrase.pending domain)⟩

/-- A fragment stands for itself. -/
theorem Assembles.operand (fragment : Expr) :
    Assembles (.operand fragment) (pure (ofFragment fragment)) where
  diagnostics := rfl
  isCharacter := rfl
  resolve domain := by
    apply Reported.ext
    · rfl
    · simp [ofFragment, Phrase.pending, reportedBy]

/-- The node of a unary operator is built from what its operand stands for. -/
theorem Assembles.unary {inner : Phrase Expr} {assembled : Reported Operand}
    (assembles : Assembles inner assembled) (entry : OperatorEntry UnaryOperator) (word : Expr) :
    Assembles (.unary entry word inner) (assembled >>= unaryNode entry (ofFragment word)) where
  diagnostics := by
    simp [unaryNode, assembles.diagnostics, assembles.resolve, Phrase.built, Phrase.unaryDomain]
  isCharacter := rfl
  resolve domain := by
    simp only [unaryNode, Reported.value_bind, assembles.resolve]
    rfl

/-- The node of a binary operator is built from what its operands stand for. -/
theorem Assembles.binary {left right : Phrase Expr} {first second : Reported Operand}
    (leftAssembles : Assembles left first) (rightAssembles : Assembles right second)
    (entry : OperatorEntry BinaryOperator) (words : List Expr) :
    Assembles (.binary entry words left right)
      (first >>= fun leftOperand => second >>= binaryNode entry leftOperand) := by
  have shared : entry.operands.domain (comparedDomain first.value.expr second.value.expr) =
      Phrase.binaryDomain entry left right := by
    rw [comparedDomain, leftAssembles.isCharacter, rightAssembles.isCharacter]
    rfl
  constructor
  · simp [binaryNode, shared, leftAssembles.diagnostics, rightAssembles.diagnostics,
      leftAssembles.resolve, rightAssembles.resolve, Phrase.built]
  · rfl
  · intro domain
    simp only [binaryNode, Reported.value_bind, shared, leftAssembles.resolve,
      rightAssembles.resolve]
    rfl

/-- Assembling a phrase of fragments gives what the phrase stands for. -/
theorem assembles (phrase : Phrase Expr) :
    Assembles phrase (assemble (phrase.map ofFragment)) := by
  induction phrase with
  | operand fragment => exact .operand fragment
  | unary entry word inner ih => exact ih.unary entry word
  | binary entry words left right ihLeft ihRight => exact ihLeft.binary ihRight entry words

theorem diagnostics_assembleAll (phrases : List (Phrase Expr)) :
    (assembleAll (phrases.map (Phrase.map ofFragment))).diagnostics =
      reportedBy (phrases.flatMap Phrase.built) := by
  induction phrases with
  | nil => rfl
  | cons phrase rest ih =>
      simp [assembleAll, (assembles phrase).diagnostics, ih]

end Operand

/-! ## Resolving a list -/

open Operand in
/-- A list that is a phrase is resolved to the tree of the phrase. -/
theorem resolveWith_of_phrase {table : OperatorTable} {fragments : List Expr}
    {phrase : Phrase Expr} (formed : Phrase.ofItems table Expr.word? fragments = .ok phrase)
    (range : Range) :
    (Expr.unresolved fragments range).resolveWith table =
      ⟨.resolved (phrase.tree table.domain) false range table.domain,
        reportedBy (phrase.built ++ phrase.pending table.domain)⟩ := by
  have formedOperands : Phrase.ofItems table word? (fragments.map ofFragment) =
      .ok (phrase.map ofFragment) := Phrase.ofItems_map_ok formed
  have stands := assembles phrase
  rw [Expr.resolveWith, operandsOf_eq_map]
  change resolveList table range (fragments.map ofFragment) = _
  rw [resolveList, formedOperands]
  apply Reported.ext
  · simp [stands.resolve]
  · simp [stands.resolve, stands.diagnostics]

open Operand in
/-- A list that is no phrase is replaced by zero and reported, whatever the priorities are. -/
theorem resolveWith_of_no_phrase {table : OperatorTable} {fragments : List Expr}
    (noPhrase : ∀ phrase, Phrase.ofItems table Expr.word? fragments ≠ .ok phrase) (range : Range) :
    ((Expr.unresolved fragments range).resolveWith table).value = recovery range table.domain ∧
      ((Expr.unresolved fragments range).resolveWith table).diagnostics ≠ [] := by
  rw [Expr.resolveWith, operandsOf_eq_map]
  change (resolveList table range (fragments.map ofFragment)).value = _ ∧
    (resolveList table range (fragments.map ofFragment)).diagnostics ≠ []
  cases outcome : Phrase.ofItems table word? (fragments.map ofFragment) with
  | ok mapped =>
      rcases Phrase.exists_ofItems_of_map outcome with ⟨phrase, formed⟩
      exact absurd formed (noPhrase phrase)
  | error failure => simp [resolveList, outcome]

/-- By whatever table a list is resolved, it is a phrase and becomes the tree of that, or it is none
and becomes a reported zero. -/
theorem resolveWith_list_cases (table : OperatorTable) (fragments : List Expr) (range : Range) :
    (∃ phrase, Phrase.ofItems table Expr.word? fragments = .ok phrase ∧
      (Expr.unresolved fragments range).resolveWith table =
        ⟨.resolved (phrase.tree table.domain) false range table.domain,
          reportedBy (phrase.built ++ phrase.pending table.domain)⟩) ∨
      (((Expr.unresolved fragments range).resolveWith table).value =
          .resolved (.constant 0 range (some table.domain)) true range table.domain ∧
        ((Expr.unresolved fragments range).resolveWith table).diagnostics ≠ []) := by
  by_cases isPhrase : ∃ phrase, Phrase.ofItems table Expr.word? fragments = .ok phrase
  · rcases isPhrase with ⟨phrase, formed⟩
    exact .inl ⟨phrase, formed, resolveWith_of_phrase formed range⟩
  · exact .inr (resolveWith_of_no_phrase (not_exists.mp isPhrase) range)

/-- An expression is resolved to its own domain, or else to that of the table. -/
theorem Expr.domain?_resolveWith (expr : Expr) (table : OperatorTable) :
    (expr.resolveWith table).value.domain? = some (expr.domain?.getD table.domain) := by
  cases expr with
  | unresolved fragments range =>
      rcases resolveWith_list_cases table fragments range with ⟨phrase, _, whole⟩ | ⟨whole, _⟩
      · simp [whole, Expr.domain?]
      · simp [whole, Expr.domain?]
  | string term range tag =>
      rcases term with ⟨duplication, chain, start, count, toEnd⟩
      cases tag <;> simp [Expr.resolveWith, Expr.domain?]
  | variableTerm reference tag =>
      cases tag <;> simp [Expr.resolveWith, Expr.domain?]
  | _ => simp [Expr.resolveWith, Expr.domain?]

theorem Expr.domain?_resolve (fragment : Expr) (domain : Domain) :
    (fragment.resolve domain).value.domain? = some (fragment.domain?.getD domain) := by
  rw [Expr.resolve, Expr.domain?_resolveWith, OperatorTable.domain_ofDomain]

/-- A list that is resolved without a diagnostic is a phrase and becomes its tree. -/
theorem exists_phrase_of_quiet {fragments : List Expr} {range : Range} {domain : Domain}
    (quiet : ((Expr.unresolved fragments range).resolve domain).diagnostics = []) :
    ∃ phrase, Phrase.ofItems (.ofDomain domain) Expr.word? fragments = .ok phrase ∧
      ((Expr.unresolved fragments range).resolve domain).value =
        .resolved (phrase.tree domain) false range domain ∧
      reportedBy (phrase.built ++ phrase.pending domain) = [] := by
  rcases resolveWith_list_cases (.ofDomain domain) fragments range with
    ⟨phrase, formed, whole⟩ | ⟨_, reported⟩
  · rw [OperatorTable.domain_ofDomain] at whole
    exact ⟨phrase, formed, congrArg Reported.value whole,
      (congrArg Reported.diagnostics whole).symm.trans quiet⟩
  · exact absurd quiet reported

theorem resolveNumbers_eq_map (exprs : List Expr) :
    (resolveNumbers exprs).value = exprs.map fun number => (number.resolve .arithmetic).value := by
  induction exprs with
  | nil => rfl
  | cons first rest ih => exact congrArg (List.cons _) ih

theorem diagnostics_resolveNumbers (exprs : List Expr) :
    (resolveNumbers exprs).diagnostics =
      exprs.flatMap fun number => (number.resolve .arithmetic).diagnostics := by
  induction exprs with
  | nil => rfl
  | cons first rest ih =>
      rw [resolveNumbers, List.flatMap_cons, ← ih]
      simp [Expr.resolve, OperatorTable.ofDomain]

/-- The diagnostic of a fault of a list of fragments. -/
def faultDiagnostic (fragments : List Expr) (range : Range) : Phrase.Fault → Diagnostic
  | .missingOperand =>
      ⟨.missingOperand, (fragments.getLast?.map fun last => last.range.pastEnd).getD range⟩
  | .invalidOperator => ⟨.invalidOperator, range⟩

open Operand in
/-- A list that is no phrase is replaced by zero, and its fault is reported after
what was found in the phrases completed before. -/
theorem resolveWith_of_failure {table : OperatorTable} {fragments : List Expr}
    {failure : Phrase.Failure Expr}
    (failed : Phrase.ofItems table Expr.word? fragments = .error failure) (range : Range) :
    (Expr.unresolved fragments range).resolveWith table =
      ⟨.resolved (.constant 0 range (some table.domain)) true range table.domain,
        reportedBy (failure.completed.flatMap Phrase.built) ++
          [faultDiagnostic fragments range failure.fault]⟩ := by
  have failedOperands : Phrase.ofItems table word? (fragments.map ofFragment) =
      .error (failure.map ofFragment) := Phrase.ofItems_map_error failed
  rw [Expr.resolveWith, operandsOf_eq_map]
  change resolveList table range (fragments.map ofFragment) = _
  rw [resolveList, failedOperands]
  apply Reported.ext
  · rfl
  · simp only [Reported.diagnostics_bind, Phrase.Failure.map, diagnostics_assembleAll,
      Reported.diagnostics_report]
    cases failure.fault with
    | missingOperand => cases last : fragments.getLast? <;>
        simp [faultProblem, faultRange, faultDiagnostic, last, ofFragment]
    | invalidOperator => rfl

end ConditionalAssembly
