import ConditionalAssembly.Proofs.Evaluation.Alike
import ConditionalAssembly.Proofs.Expr.Erasure
import ConditionalAssembly.Proofs.Resolution.Tree

/-!
# Places do not matter for resolution

An expression is resolved by its words and its structure.  Where its parts
stand only decides where the nodes of its tree stand and where its faults are
reported.  So erasing an expression before it is resolved gives the erased
tree, and the same problems are reported.
-/

namespace ConditionalAssembly

open Reported

/-! ## Trees of erased phrases -/

/-- The expression is resolved to the same tree and with the same problems when it is erased. -/
def Expr.IgnoresPlaces (expr : Expr) : Prop :=
  ∀ domain, (Expr.erase <$> expr.resolve domain).Alike (expr.erase.resolve domain)

/-- The fragments that are resolved, with their domains, without their places. -/
def eraseResolutions (resolutions : List (Expr × Domain)) : List (Expr × Domain) :=
  resolutions.map fun resolution => (resolution.1.erase, resolution.2)

theorem eraseResolutions_append (first second : List (Expr × Domain)) :
    eraseResolutions (first ++ second) = eraseResolutions first ++ eraseResolutions second :=
  List.map_append

/-- The problems of fragments do not depend on where they stand. -/
theorem problems_reportedBy_erase {resolutions : List (Expr × Domain)}
    (ignore : ∀ resolution ∈ resolutions, resolution.1.IgnoresPlaces) :
    (reportedBy (eraseResolutions resolutions)).map Diagnostic.problem =
      (reportedBy resolutions).map Diagnostic.problem := by
  induction resolutions with
  | nil => rfl
  | cons resolution rest ih =>
      obtain ⟨own, others⟩ := List.forall_mem_cons.mp ignore
      have same := (own resolution.2).problems
      rw [problems_map] at same
      simp only [eraseResolutions, reportedBy, List.map_cons, List.flatMap_cons, List.map_append]
      exact congrArg₂ (· ++ ·) same.symm (ih others)

namespace Phrase

@[simp]
theorem isCharacter_map_erase (phrase : Phrase Expr) :
    (phrase.map Expr.erase).isCharacter = phrase.isCharacter := by
  cases phrase with
  | operand fragment => exact fragment.isCharacterOperand_erase
  | unary entry word inner => rfl
  | binary entry words left right => rfl

@[simp]
theorem binaryDomain_map_erase (entry : OperatorEntry BinaryOperator) (left right : Phrase Expr) :
    binaryDomain entry (left.map Expr.erase) (right.map Expr.erase) =
      binaryDomain entry left right := by
  simp [binaryDomain]

theorem pending_map_erase (phrase : Phrase Expr) (domain : Domain) :
    (phrase.map Expr.erase).pending domain = eraseResolutions (phrase.pending domain) := by
  cases phrase <;> rfl

/-- An erased phrase resolves the erased fragments in the same order. -/
theorem built_map_erase (phrase : Phrase Expr) :
    (phrase.map Expr.erase).built = eraseResolutions phrase.built := by
  induction phrase with
  | operand fragment => rfl
  | unary entry word inner ih =>
      rw [map, built, ih, pending_map_erase, built, eraseResolutions_append]
  | binary entry words left right ihLeft ihRight =>
      rw [map, built, ihLeft, ihRight, pending_map_erase, pending_map_erase,
        binaryDomain_map_erase, built]
      simp only [eraseResolutions_append]

/-- The tree of an erased phrase is the erased tree. -/
theorem tree_map_erase {phrase : Phrase Expr}
    (ignore : ∀ fragment ∈ phrase.items, fragment.IgnoresPlaces) (domain : Domain) :
    (phrase.map Expr.erase).tree domain = (phrase.tree domain).erase := by
  induction phrase generalizing domain with
  | operand fragment =>
      exact (ignore fragment (List.mem_singleton_self fragment) domain).value.symm
  | unary entry word inner ih =>
      have inside := ih (fun fragment isItem => ignore fragment (List.mem_cons_of_mem _ isItem))
      simp [map, tree, inside, Expr.erase]
  | binary entry words left right ihLeft ihRight =>
      have inLeft := ihLeft fun fragment isItem =>
        ignore fragment (List.mem_append_left _ (List.mem_append_left _ isItem))
      have inRight := ihRight fun fragment isItem => ignore fragment (List.mem_append_right _ isItem)
      simp [map, tree, inLeft, inRight, Expr.erase]

/-- The fragments that a phrase resolves are fragments of it. -/
theorem ignore_resolutions {phrase : Phrase Expr}
    (ignore : ∀ fragment ∈ phrase.items, fragment.IgnoresPlaces) (domain : Domain) :
    ∀ resolution ∈ phrase.built ++ phrase.pending domain, resolution.1.IgnoresPlaces := by
  intro resolution isResolution
  exact ignore _ ((phrase.subperm_items domain).subset (List.mem_map_of_mem isResolution))

end Phrase

/-! ## Lists -/

theorem Expr.word?_comp_erase : Expr.word? ∘ Expr.erase = Expr.word? :=
  funext Expr.word?_erase

section Lists

variable {domain : Domain} {fragments : List Expr}

/-- An erased list that is a phrase is resolved to the erased tree. -/
theorem alike_erase_of_phrase {phrase : Phrase Expr}
    (formed : Phrase.ofItems (.ofDomain domain) Expr.word? fragments = .ok phrase)
    (ignore : ∀ fragment ∈ fragments, fragment.IgnoresPlaces) (range : Range) :
    (Expr.erase <$> (Expr.unresolved fragments range).resolve domain).Alike
      ((Expr.unresolved fragments range).erase.resolve domain) := by
  have formedErased : Phrase.ofItems (.ofDomain domain) Expr.word? (fragments.map Expr.erase) =
      .ok (phrase.map Expr.erase) :=
    Phrase.ofItems_map_ok (by rwa [Expr.word?_comp_erase])
  rw [← Phrase.items_of_ofItems formed] at ignore
  rw [Expr.erase, eraseEach_eq_map, Expr.resolve, Expr.resolve, resolveWith_of_phrase formed,
    resolveWith_of_phrase formedErased]
  constructor
  · exact congrArg (Expr.resolved · false .nowhere _) (Phrase.tree_map_erase ignore _).symm
  · rw [problems_map, Phrase.built_map_erase, Phrase.pending_map_erase, ← eraseResolutions_append]
    exact (problems_reportedBy_erase (Phrase.ignore_resolutions ignore _)).symm

/-- The places of fragments and lists only decide where a fault is reported. -/
theorem problem_faultDiagnostic (others : List Expr) (range other : Range) (fault : Phrase.Fault) :
    (faultDiagnostic fragments range fault).problem =
      (faultDiagnostic others other fault).problem := by
  cases fault <;> rfl

/-- An erased list that is no phrase is replaced for the same fault. -/
theorem alike_erase_of_failure {failure : Phrase.Failure Expr}
    (failed : Phrase.ofItems (.ofDomain domain) Expr.word? fragments = .error failure)
    (ignore : ∀ fragment ∈ fragments, fragment.IgnoresPlaces) (range : Range) :
    (Expr.erase <$> (Expr.unresolved fragments range).resolve domain).Alike
      ((Expr.unresolved fragments range).erase.resolve domain) := by
  have bounded := OperatorTable.bounded_ofDomain domain
  have failedErased : Phrase.ofItems (.ofDomain domain) Expr.word? (fragments.map Expr.erase) =
      .error (failure.map Expr.erase) :=
    Phrase.ofItems_map_error (by rwa [Expr.word?_comp_erase])
  have completed := (Phrase.reads_of_ofItems_eq_error bounded failed).completed_sublist
  have ignoreBuilt : ∀ resolution ∈ failure.completed.flatMap Phrase.built,
      resolution.1.IgnoresPlaces := by
    intro resolution isBuilt
    have isItem := (Phrase.flatMap_built_subperm failure.completed).subset
      (List.mem_map_of_mem isBuilt)
    exact ignore _ (completed.subset isItem)
  have builtErased : (failure.completed.map (Phrase.map Expr.erase)).flatMap Phrase.built =
      eraseResolutions (failure.completed.flatMap Phrase.built) := by
    simp only [List.flatMap_map, Phrase.built_map_erase, eraseResolutions, List.map_flatMap]
  rw [Expr.erase, eraseEach_eq_map, Expr.resolve, Expr.resolve,
    resolveWith_of_failure failed, resolveWith_of_failure failedErased]
  constructor
  · rfl
  · rw [problems_map]
    simp only [problems, List.map_append, Phrase.Failure.map, builtErased]
    rw [problems_reportedBy_erase ignoreBuilt]
    exact congrArg (_ ++ [·]) (problem_faultDiagnostic _ range _ failure.fault)

/-- A list ignores places when its fragments do. -/
theorem ignoresPlaces_unresolved (ignore : ∀ fragment ∈ fragments, fragment.IgnoresPlaces)
    (range : Range) : (Expr.unresolved fragments range).IgnoresPlaces := by
  intro domain
  cases outcome : Phrase.ofItems (.ofDomain domain) Expr.word? fragments with
  | ok phrase => exact alike_erase_of_phrase outcome ignore range
  | error failure => exact alike_erase_of_failure outcome ignore range

end Lists

/-! ## Expressions -/

mutual

/-- Erasing an expression erases its tree and leaves the problems as they are. -/
theorem Expr.alike_resolve_erase : ∀ expr : Expr, expr.IgnoresPlaces
  | .constant _ _ _ | .symbol _ _ _ | .symbolAttribute _ _ _ _
  | .variableAttribute _ _ _ _ => fun _ => ⟨rfl, rfl⟩
  | .variableTerm reference none => fun _ =>
      reference.alike_resolve_erase.bind_map fun _ => ⟨rfl, rfl⟩
  | .string ⟨duplication, chain, ⟨start, count, _⟩⟩ _ none => fun _ =>
      (alike_resolveChain_erase chain).bind_map fun _ =>
        (alike_resolveNumber_erase duplication).bind_map fun _ =>
          (alike_resolveNumber_erase start).bind_map fun _ =>
            (alike_resolveNumber_erase count).bind_map fun _ => ⟨rfl, rfl⟩
  | .unresolved fragments range => ignoresPlaces_unresolved (ignorePlaces_each fragments) range
  | .variableTerm _ (some _) => fun _ => ⟨rfl, rfl⟩
  | .string ⟨_, _, ⟨_, _, _⟩⟩ _ (some _) => fun _ => ⟨rfl, rfl⟩
  | .resolved _ _ _ _ | .unary _ _ _ _ _ | .binary _ _ _ _ _ _ => fun _ => ⟨rfl, rfl⟩

theorem VariableSymbol.alike_resolve_erase : ∀ reference : VariableSymbol,
    (VariableSymbol.erase <$> reference.resolve).Alike reference.erase.resolve
  | ⟨.basic _, subscript, _⟩ => (alike_resolveNumbers_erase subscript).bind_map fun _ => ⟨rfl, rfl⟩
  | ⟨.created chain, subscript, _⟩ =>
      (alike_resolveChain_erase chain).bind_map fun _ =>
        (alike_resolveNumbers_erase subscript).bind_map fun _ => ⟨rfl, rfl⟩

theorem ChainItem.alike_resolve_erase : ∀ item : ChainItem,
    (ChainItem.erase <$> item.resolve).Alike item.erase.resolve
  | .text _ | .dot | .equals => ⟨rfl, rfl⟩
  | .variableItem reference => reference.alike_resolve_erase.bind_map fun _ => ⟨rfl, rfl⟩
  | .sublist members => (alike_resolveMembers_erase members).bind_map fun _ => ⟨rfl, rfl⟩

theorem alike_resolveChain_erase : ∀ chain : List ChainItem,
    (eraseChain <$> resolveChain chain).Alike (resolveChain (eraseChain chain))
  | [] => ⟨rfl, rfl⟩
  | item :: rest =>
      item.alike_resolve_erase.bind_map fun _ =>
        (alike_resolveChain_erase rest).bind_map fun _ => ⟨rfl, rfl⟩

theorem alike_resolveMembers_erase : ∀ members : List (List ChainItem),
    (eraseMembers <$> resolveMembers members).Alike (resolveMembers (eraseMembers members))
  | [] => ⟨rfl, rfl⟩
  | chain :: rest =>
      (alike_resolveChain_erase chain).bind_map fun _ =>
        (alike_resolveMembers_erase rest).bind_map fun _ => ⟨rfl, rfl⟩

theorem alike_resolveNumbers_erase : ∀ exprs : List Expr,
    (eraseEach <$> resolveNumbers exprs).Alike (resolveNumbers (eraseEach exprs))
  | [] => ⟨rfl, rfl⟩
  | expr :: rest =>
      (expr.alike_resolve_erase .arithmetic).bind_map fun _ =>
        (alike_resolveNumbers_erase rest).bind_map fun _ => ⟨rfl, rfl⟩

theorem alike_resolveNumber_erase : ∀ expr : Option Expr,
    (eraseOption <$> resolveNumber expr).Alike (resolveNumber (eraseOption expr))
  | none => ⟨rfl, rfl⟩
  | some expr => (expr.alike_resolve_erase .arithmetic).bind_map fun _ => ⟨rfl, rfl⟩

theorem ignorePlaces_each : ∀ fragments : List Expr, ∀ fragment ∈ fragments, fragment.IgnoresPlaces
  | [] => nofun
  | fragment :: rest =>
      List.forall_mem_cons.mpr ⟨fragment.alike_resolve_erase, ignorePlaces_each rest⟩

end

/-- Expressions that differ in their places only are resolved to such trees, with the same
problems. -/
theorem alike_resolve_of_erase_eq {first second : Expr} (same : first.erase = second.erase)
    (domain : Domain) :
    (Expr.erase <$> first.resolve domain).Alike (Expr.erase <$> second.resolve domain) :=
  (same ▸ first.alike_resolve_erase domain).trans (second.alike_resolve_erase domain).symm

end ConditionalAssembly
