import Mathlib
import ConditionalAssembly.Proofs.Evaluation.Requests
import ConditionalAssembly.Proofs.Resolution.Origins

/-!
# What resolution reaches

Resolution gives every node of a tree its domain, except for the nodes inside
the subject of an attribute, which it leaves as they were read.  Of those,
only subscripts exist, and each of them is a list that stays unresolved.

Resolution is complete exactly on the trees in which no attribute is asked of a
variable with a subscript.
-/

namespace ConditionalAssembly

/-- A node as resolution leaves it. -/
structure Expr.IsSettled (node : Expr) : Prop where
  domain : node.domain?.isSome
  subject : node.HasPlainSubject

/-- Every one of some nodes is as resolution leaves it. -/
def AllSettled (nodes : List Expr) : Prop :=
  ∀ node ∈ nodes, node.IsSettled

/-! ## What resolution leaves -/

theorem Expr.Becomes.isSettled {source result : Expr} {domain : Domain}
    (becomes : source.Becomes domain result) (fresh : source.IsFresh) : result.IsSettled := by
  cases becomes with
  | variableAttribute _ _ _ => exact ⟨rfl, fresh.subject⟩
  | constant _ _ | symbol _ _ | symbolAttribute _ _ _ | variableTerm _ | string _ _ _ _ _ _ =>
      exact ⟨rfl, trivial⟩

theorem Expr.OwnedByList.isSettled {node : Expr} {range : Range} {domain : Domain}
    (owned : node.OwnedByList range domain) : node.IsSettled := by
  cases owned <;> exact ⟨rfl, trivial⟩

/-- Resolving an expression to any domain leaves every node settled. -/
def Expr.Resolves (expr : Expr) : Prop :=
  ∀ domain, AllSettled ((expr.resolve domain).value.nodes false)

/-- Resolution leaves every node settled. -/
theorem Expr.resolves (expr : Expr) (fresh : AllFresh (expr.nodes false)) : expr.Resolves := by
  intro domain node isNode
  rcases (expr.traced fresh.untagged domain).origin node isNode with ⟨source, isSource, _, own⟩
  have sourceFresh := fresh source isSource
  rcases Expr.cases_of_mem_ownNodes sourceFresh.untagged own with becomes | ⟨_, _, _, owned⟩
  · exact becomes.isSettled sourceFresh
  · exact owned.isSettled

/-! ## What stays unresolved -/

/-- Every one of some nodes was resolved to a domain. -/
def AllResolved (nodes : List Expr) : Prop :=
  ∀ node ∈ nodes, node.domain?.isSome

/-- The attributes in a tree are asked of variables without subscripts. -/
def Expr.HasBareSubjects (tree : Expr) : Prop :=
  ∀ kind reference range domain,
    .variableAttribute kind reference range domain ∈ tree.nodes true → reference.subscript = []

/-- However often a tree is evaluated, and on whatever context, it is never
reported as unresolved. -/
def Expr.NeverUnresolved (tree : Expr) : Prop :=
  ∀ (context : Context) (requests : List Request), (∀ request ∈ requests, request.expr = tree) →
    ∀ diagnostic ∈ (context.performAll requests).2.diagnostics,
      diagnostic ∈ context.diagnostics ∨ diagnostic.problem ≠ .unresolvedExpression

theorem Expr.isResolved_of_domain {node : Expr} (resolved : node.domain?.isSome) :
    node.isResolved = true := by
  cases node with
  | unresolved _ _ => cases resolved
  | _ => rfl

theorem VariableSymbol.IsPlain.nodes_eq_nil {reference : VariableSymbol}
    (plain : reference.IsPlain) (bare : reference.subscript = []) : reference.nodes true = [] := by
  rcases reference with ⟨name, subscript, range⟩
  rcases plain.name with ⟨word, rfl⟩
  cases bare
  rfl

theorem VariableSymbol.mem_nodes_of_mem_subscript {reference : VariableSymbol} {index : Expr}
    (isIndex : index ∈ reference.subscript) : index ∈ reference.nodes true := by
  rcases reference with ⟨name, subscript, range⟩
  rw [VariableSymbol.nodes]
  exact List.mem_append_right _ (mem_nodesOfEach.mpr ⟨index, isIndex, index.mem_nodes_self true⟩)

section

variable {tree : Expr} (settled : AllSettled (tree.nodes false))

include settled

/-- In a settled tree a node without a domain stands inside the subject of an attribute. -/
theorem inSubject_of_not_resolved {node : Expr} (isNode : node ∈ tree.nodes true)
    (waits : node.isResolved = false) : InSubject node (tree.nodes false) := by
  rcases Expr.mem_nodes_iff.mp isNode with outside | inside
  · have resolved := Expr.isResolved_of_domain (settled node outside).domain
    cases waits.symm.trans resolved
  · exact inside

/-- A settled tree whose attributes have bare subjects was resolved everywhere. -/
theorem allResolved_of_bare (bare : tree.HasBareSubjects) : AllResolved (tree.nodes true) := by
  intro node isNode
  rcases Expr.mem_nodes_iff.mp isNode with outside | ⟨kind, reference, range, domain, isAttribute, inside⟩
  · exact (settled node outside).domain
  · have plain : reference.IsPlain := (settled _ isAttribute).subject
    have subscript := bare kind reference range domain (Expr.mem_nodes_iff.mpr (.inl isAttribute))
    rw [plain.nodes_eq_nil subscript] at inside
    cases inside

/-- A settled tree without unresolved lists has attributes with bare subjects only. -/
theorem bare_of_isResolved (resolved : ∀ node ∈ tree.nodes true, node.isResolved = true) :
    tree.HasBareSubjects := by
  have outside {kind : Attribute} {reference : VariableSymbol} {range : Range}
      {domain : Option Domain}
      (isAttribute : .variableAttribute kind reference range domain ∈ tree.nodes false) :
      reference.subscript = [] := by
    have plain : reference.IsPlain := (settled _ isAttribute).subject
    apply List.eq_nil_iff_forall_not_mem.mpr
    intro index isIndex
    have inside := VariableSymbol.mem_nodes_of_mem_subscript isIndex
    have isNode : index ∈ tree.nodes true :=
      Expr.mem_nodes_iff.mpr (.inr ⟨kind, reference, range, domain, isAttribute, inside⟩)
    cases (plain.subscript index isIndex).symm.trans (resolved index isNode)
  intro kind reference range domain isAttribute
  rcases Expr.mem_nodes_iff.mp isAttribute with isOutside | ⟨_, subject, _, _, isOuter, inside⟩
  · exact outside isOutside
  · have plain : subject.IsPlain := (settled _ isOuter).subject
    rw [plain.nodes_eq_nil (outside isOuter)] at inside
    cases inside

end

/-- Of nodes that were all resolved none is reported as unresolved. -/
theorem AllResolved.allows {nodes : List Expr} (resolved : AllResolved nodes) :
    Allows (· ≠ .unresolvedExpression) nodes where
  ordinary isOrdinary := (Problem.isOrdinary_iff.mp isOrdinary).2
  unresolved node isNode untagged := by
    have tagged := resolved node isNode
    rw [untagged] at tagged
    cases tagged

/-- A tree that was resolved everywhere is never reported as unresolved. -/
theorem neverUnresolved_of_allResolved {tree : Expr} (resolved : AllResolved (tree.nodes true)) :
    tree.NeverUnresolved := by
  intro context requests same diagnostic reported
  rw [Context.performAll_eq] at reported
  rcases List.mem_append.mp reported with earlier | added
  · exact .inl earlier
  · rcases List.mem_flatMap.mp added with ⟨request, isRequest, own⟩
    cases same request isRequest
    exact .inr (request.within_result context.store resolved.allows diagnostic own)

/-- Resolution is complete, and evaluation never meets an unresolved list,
exactly when no attribute in the tree is asked of a variable with a subscript.
Whatever stays unresolved stands inside the subject of an attribute. -/
theorem complete_iff_bare_subjects {source : String} {expr : Expr}
    (read : Expr.read source = .ok expr) (domain : Domain) :
    let tree := (expr.resolve domain).value
    (((∀ node ∈ tree.nodes true, node.isResolved = true) ∧ tree.NeverUnresolved) ↔
      tree.HasBareSubjects) ∧
    ∀ node ∈ tree.nodes true, node.isResolved = false → InSubject node (tree.nodes false) := by
  intro tree
  have settled : AllSettled (tree.nodes false) := expr.resolves (Expr.allFresh_of_read read) domain
  constructor
  · constructor
    · rintro ⟨resolved, _⟩
      exact bare_of_isResolved settled resolved
    · intro bare
      have resolved := allResolved_of_bare settled bare
      constructor
      · intro node isNode
        exact Expr.isResolved_of_domain (resolved node isNode)
      · exact neverUnresolved_of_allResolved resolved
  · intro node isNode waits
    exact inSubject_of_not_resolved settled isNode waits

/-- What is read from `&X(1)`. -/
def element : Expr :=
  .unresolved
    [.variableTerm ⟨.basic "X", [.unresolved [.constant 1 (.columns 3 4) none] (.columns 3 4)],
      .columns 0 5⟩ none]
    (.columns 0 5)

/-- What is read from `K'&X(1)`. -/
def lengthOfElement : Expr :=
  .unresolved
    [.variableAttribute .count
      ⟨.basic "X", [.unresolved [.constant 1 (.columns 5 6) none] (.columns 5 6)],
        .columns 2 7⟩ (.columns 0 7) none]
    (.columns 0 7)

/-- The element `&X(1)` is resolved completely. -/
theorem complete_iff_bare_subjects_element :
    let tree := (element.resolve .character).value
    Expr.read "&X(1)" = .ok element ∧
      (∀ node ∈ tree.nodes true, node.isResolved = true) ∧ tree.NeverUnresolved := by
  intro tree
  have read : Expr.read "&X(1)" = .ok element := by cbv
  have resolved : tree = .resolved
      (.variableTerm ⟨.basic "X", [.resolved (.constant 1 (.columns 3 4) (some .arithmetic)) false
        (.columns 3 4) .arithmetic], .columns 0 5⟩ (some .character))
      false (.columns 0 5) .character := by
    change (element.resolve .character).value = _
    cbv
  rcases complete_iff_bare_subjects read .character with ⟨complete, _⟩
  constructor
  · exact read
  · apply complete.mpr
    intro kind reference range domain isAttribute
    change _ ∈ tree.nodes true at isAttribute
    simp [resolved, Expr.nodes, VariableSymbol.nodes, VariableName.nodes, nodesOfEach]
      at isAttribute

/-- In `K'&X(1)` the subscript stays a list, and evaluation reports it. -/
theorem length_of_element_not_complete :
    let tree := (lengthOfElement.resolve .arithmetic).value
    Expr.read "K'&X(1)" = .ok lengthOfElement ∧
      (∃ node ∈ tree.nodes true, node.isResolved = false) ∧
      (tree.evaluate (Store.empty.setElement "X" 1 (.character "AB"))).diagnostics =
        [⟨.unresolvedExpression, .columns 5 6⟩, ⟨.undefinedVariable "X", .columns 0 7⟩] := by
  have resolved : (lengthOfElement.resolve .arithmetic).value = .resolved
      (.variableAttribute .count
        ⟨.basic "X", [.unresolved [.constant 1 (.columns 5 6) none] (.columns 5 6)],
          .columns 2 7⟩ (.columns 0 7) (some .arithmetic))
      false (.columns 0 7) .arithmetic := by cbv
  constructor
  · cbv
  constructor
  · refine ⟨.unresolved [.constant 1 (.columns 5 6) none] (.columns 5 6), ?_, rfl⟩
    simp [resolved, Expr.nodes, VariableSymbol.nodes, VariableName.nodes, nodesOfEach]
  · cbv

end ConditionalAssembly
