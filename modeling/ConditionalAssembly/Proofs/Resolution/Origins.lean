import ConditionalAssembly.Proofs.Expr.Reading
import ConditionalAssembly.Proofs.Phrase.Spelling
import ConditionalAssembly.Proofs.Resolution.Tree

/-!
# Where the nodes of a tree come from

What resolution does to one node of an expression does not depend on the nodes
around it, except for the domain they resolve it to.  Every node of the tree
belongs to what some node of the expression is resolved to.  As long as no list
is replaced, no node but the words that spell operators is lost.
-/

namespace ConditionalAssembly

/-! ## Nodes of a list -/

namespace Expr

/-- The expression is the node of an operator. -/
def isOperator : Expr → Bool
  | .unary _ _ _ _ _ | .binary _ _ _ _ _ _ => true
  | _ => false

/-- The operators reached from an expression without entering a list. -/
def operators : Expr → List Expr
  | .unary operator operand range domain operandDomain =>
      .unary operator operand range domain operandDomain :: operand.operators
  | .binary operator left right range domain operandDomain =>
      .binary operator left right range domain operandDomain ::
        (left.operators ++ right.operators)
  | _ => []

/-- What a resolved expression consists of besides its operands: a list of its
operators, or of the number that stands in for it. -/
def ownNodes : Expr → List Expr
  | .resolved root recovered range domain =>
      .resolved root recovered range domain :: if recovered then [root] else root.operators
  | expr => [expr]

/-- The nodes that a list owns once it is resolved: itself and its operators, or itself and the
zero that stands in for it. -/
inductive OwnedByList (range : Range) (domain : Domain) : Expr → Prop where
  | list (root : Expr) (recovered : Bool) :
      OwnedByList range domain (.resolved root recovered range domain)
  | unary (operator : UnaryOperator) (operand : Expr) (operatorRange : Range)
      (result operandDomain : Domain) :
      OwnedByList range domain (.unary operator operand operatorRange result operandDomain)
  | binary (operator : BinaryOperator) (left right : Expr) (operatorRange : Range)
      (result operandDomain : Domain) :
      OwnedByList range domain (.binary operator left right operatorRange result operandDomain)
  | zero : OwnedByList range domain (.constant 0 range (some domain))

/-- The operators reached from a root are owned by its list. -/
theorem OwnedByList.of_mem_operators {range : Range} {domain : Domain} {node : Expr} :
    ∀ root : Expr, node ∈ root.operators → node.OwnedByList range domain
  | .unary _ operand _ _ _, found => by
      rcases List.mem_cons.mp found with rfl | inside
      · exact .unary ..
      · exact of_mem_operators operand inside
  | .binary _ left right _ _ _, found => by
      rcases List.mem_cons.mp found with rfl | inside
      · exact .binary ..
      · rcases List.mem_append.mp inside with inLeft | inRight
        · exact of_mem_operators left inLeft
        · exact of_mem_operators right inRight

end Expr

namespace Phrase

/-- The nodes of the tree of a phrase are operators or stand in an operand. -/
theorem mem_nodes_tree {phrase : Phrase Expr} {domain : Domain} {node : Expr}
    (isNode : node ∈ (phrase.tree domain).nodes false) :
    node ∈ (phrase.tree domain).operators ∨
      ∃ fragment ∈ phrase.operands, ∃ operandDomain,
        node ∈ (fragment.resolve operandDomain).value.nodes false := by
  induction phrase generalizing domain with
  | operand fragment => exact .inr ⟨fragment, List.mem_singleton_self fragment, domain, isNode⟩
  | unary entry word inner ih =>
      rcases List.mem_cons.mp isNode with rfl | inside
      · exact .inl (List.mem_cons_self ..)
      · rcases ih inside with isOperator | inOperand
        · exact .inl (List.mem_cons_of_mem _ isOperator)
        · exact .inr inOperand
  | binary entry words left right ihLeft ihRight =>
      rcases List.mem_cons.mp isNode with rfl | inside
      · exact .inl (List.mem_cons_self ..)
      · rcases List.mem_append.mp inside with inLeft | inRight
        · rcases ihLeft inLeft with isOperator | ⟨fragment, isOperand, resolved⟩
          · exact .inl (List.mem_cons_of_mem _ (List.mem_append_left _ isOperator))
          · exact .inr ⟨fragment, List.mem_append_left _ isOperand, resolved⟩
        · rcases ihRight inRight with isOperator | ⟨fragment, isOperand, resolved⟩
          · exact .inl (List.mem_cons_of_mem _ (List.mem_append_right _ isOperator))
          · exact .inr ⟨fragment, List.mem_append_right _ isOperand, resolved⟩

/-- An operand of a phrase is resolved to some domain, and what it becomes stands in the tree. -/
theorem exists_resolution_of_mem_operands {phrase : Phrase Expr} {fragment : Expr}
    (isOperand : fragment ∈ phrase.operands) (domain : Domain) :
    ∃ operandDomain, (fragment, operandDomain) ∈ phrase.built ++ phrase.pending domain ∧
      ∀ node ∈ (fragment.resolve operandDomain).value.nodes false,
        node ∈ (phrase.tree domain).nodes false := by
  induction phrase generalizing domain with
  | operand other =>
      cases List.mem_singleton.mp isOperand
      exact ⟨domain, List.mem_singleton_self _, fun _ inside => inside⟩
  | unary entry word inner ih =>
      rcases ih isOperand (unaryDomain entry) with ⟨operandDomain, isResolved, inside⟩
      use operandDomain
      constructor
      · rwa [built, pending, List.append_nil]
      · intro node isNode
        exact List.mem_cons_of_mem _ (inside node isNode)
  | binary entry words left right ihLeft ihRight =>
      let shared := binaryDomain entry left right
      have resolutions (resolution : Expr × Domain) :
          resolution ∈ (Phrase.binary entry words left right).built ++
              (Phrase.binary entry words left right).pending domain ↔
            resolution ∈ left.built ++ left.pending shared ∨
              resolution ∈ right.built ++ right.pending shared := by
        simp only [built, pending, List.mem_append, List.not_mem_nil]
        tauto
      rcases List.mem_append.mp isOperand with inLeft | inRight
      · rcases ihLeft inLeft shared with ⟨operandDomain, isResolved, inside⟩
        use operandDomain
        constructor
        · exact (resolutions _).mpr (.inl isResolved)
        · intro node isNode
          exact List.mem_cons_of_mem _ (List.mem_append_left _ (inside node isNode))
      · rcases ihRight inRight shared with ⟨operandDomain, isResolved, inside⟩
        use operandDomain
        constructor
        · exact (resolutions _).mpr (.inr isResolved)
        · intro node isNode
          exact List.mem_cons_of_mem _ (List.mem_append_right _ (inside node isNode))

end Phrase

section

variable {table : OperatorTable} {fragments : List Expr} {range : Range}

/-- A list is resolved to a list of the table's domain, in which zero stands in for fragments that
form no expression. -/
theorem exists_resolved_of_list (table : OperatorTable) (fragments : List Expr) (range : Range) :
    ∃ root recovered, ((Expr.unresolved fragments range).resolveWith table).value =
        .resolved root recovered range table.domain ∧
      (recovered = true → root = .constant 0 range (some table.domain)) := by
  rcases resolveWith_list_cases table fragments range with ⟨phrase, _, resolved⟩ | ⟨recovered, _⟩
  · rw [resolved]
    exact ⟨_, _, rfl, nofun⟩
  · exact ⟨_, _, recovered, fun _ => rfl⟩

/-- What a list owns once it is resolved. -/
theorem ownedByList_of_mem_ownNodes {node : Expr}
    (own : node ∈ ((Expr.unresolved fragments range).resolveWith table).value.ownNodes) :
    node.OwnedByList range table.domain := by
  rcases exists_resolved_of_list table fragments range with ⟨root, recovered, resolved, standsIn⟩
  rw [resolved] at own
  rcases List.mem_cons.mp own with rfl | inside
  · exact .list ..
  · cases recovered with
    | false => exact .of_mem_operators root inside
    | true =>
        cases List.mem_singleton.mp inside
        cases standsIn rfl
        exact .zero

/-- A node of what a list is resolved to is its own or stands in a resolved fragment. -/
theorem origin_of_list {node : Expr}
    (isNode : node ∈ ((Expr.unresolved fragments range).resolveWith table).value.nodes false) :
    node ∈ ((Expr.unresolved fragments range).resolveWith table).value.ownNodes ∨
      ∃ fragment ∈ fragments, ∃ domain, node ∈ (fragment.resolve domain).value.nodes false := by
  rcases resolveWith_list_cases table fragments range with
    ⟨phrase, formed, resolved⟩ | ⟨recovered, _⟩
  · rw [resolved] at isNode ⊢
    rcases List.mem_cons.mp isNode with rfl | inside
    · exact .inl (List.mem_cons_self ..)
    · rcases Phrase.mem_nodes_tree inside with isOperator | ⟨fragment, isOperand, inFragment⟩
      · exact .inl (List.mem_cons_of_mem _ isOperator)
      · have isFragment := Phrase.mem_items_of_mem_operands isOperand
        rw [Phrase.items_of_ofItems formed] at isFragment
        exact .inr ⟨fragment, isFragment, inFragment⟩
  · rw [recovered] at isNode ⊢
    exact .inl isNode

/-- As long as nothing is reported, every fragment that is no word is resolved
to a part of the tree. -/
theorem exists_resolution_of_list
    (calm : ((Expr.unresolved fragments range).resolveWith table).diagnostics = [])
    {fragment : Expr} (isFragment : fragment ∈ fragments) (noWord : fragment.word? = none) :
    ∃ domain, (fragment.resolve domain).diagnostics = [] ∧
      ∀ node ∈ (fragment.resolve domain).value.nodes false,
        node ∈ ((Expr.unresolved fragments range).resolveWith table).value.nodes false := by
  rcases resolveWith_list_cases table fragments range with
    ⟨phrase, formed, resolved⟩ | ⟨_, reported⟩
  · rw [← Phrase.items_of_ofItems formed] at isFragment
    have isOperand := (Phrase.spelled_of_ofItems formed).mem_operands isFragment noWord
    rcases Phrase.exists_resolution_of_mem_operands isOperand table.domain with
      ⟨domain, isResolved, inside⟩
    rw [resolved] at calm ⊢
    have quiet : (fragment.resolve domain).diagnostics = [] :=
      List.flatMap_eq_nil_iff.mp calm _ isResolved
    exact ⟨domain, quiet, fun node isNode => List.mem_cons_of_mem _ (inside node isNode)⟩
  · exact absurd calm reported

end

/-! ## Nodes of a single expression -/

namespace Expr

/-- What a term becomes when it is resolved to a domain. -/
inductive Becomes (domain : Domain) : Expr → Expr → Prop where
  | constant (value : Int32) (range : Range) :
      Becomes domain (.constant value range none) (.constant value range (some domain))
  | symbol (name : String) (range : Range) :
      Becomes domain (.symbol name range none) (.symbol name range (some domain))
  | symbolAttribute (kind : Attribute) (name : String) (range : Range) :
      Becomes domain (.symbolAttribute kind name range none)
        (.symbolAttribute kind name range (some domain))
  | variableAttribute (kind : Attribute) (reference : VariableSymbol) (range : Range) :
      Becomes domain (.variableAttribute kind reference range none)
        (.variableAttribute kind reference range (some domain))
  | variableTerm (reference : VariableSymbol) :
      Becomes domain (.variableTerm reference none)
        (.variableTerm reference.resolve.value (some domain))
  | string (duplication : Option Expr) (chain : List ChainItem) (start count : Option Expr)
      (toEnd : Bool) (range : Range) :
      Becomes domain (.string ⟨duplication, chain, ⟨start, count, toEnd⟩⟩ range none)
        (.string ⟨(resolveNumber duplication).value, (resolveChain chain).value,
          ⟨(resolveNumber start).value, (resolveNumber count).value, toEnd⟩⟩ range (some domain))

/-- A term without a domain is resolved as a term, and of a table only the domain counts. -/
theorem becomes_resolveWith {source : Expr} (untagged : source.domain? = none)
    (isTerm : source.isResolved = true) (table : OperatorTable) :
    source.Becomes table.domain (source.resolveWith table).value := by
  cases source with
  | constant _ _ _ =>
      cases untagged
      exact .constant ..
  | symbol _ _ _ =>
      cases untagged
      exact .symbol ..
  | symbolAttribute _ _ _ _ =>
      cases untagged
      exact .symbolAttribute ..
  | variableAttribute _ _ _ _ =>
      cases untagged
      exact .variableAttribute ..
  | variableTerm _ _ =>
      cases untagged
      exact .variableTerm ..
  | string term _ _ =>
      cases untagged
      rcases term with ⟨_, _, ⟨_, _, _⟩⟩
      exact .string ..
  | unresolved _ _ => cases isTerm
  | resolved _ _ _ _ | unary _ _ _ _ _ | binary _ _ _ _ _ _ => cases untagged

theorem becomes_resolve {source : Expr} (untagged : source.domain? = none)
    (isTerm : source.isResolved = true) (domain : Domain) :
    source.Becomes domain (source.resolve domain).value := by
  have becomes := becomes_resolveWith untagged isTerm (.ofDomain domain)
  rwa [OperatorTable.domain_ofDomain] at becomes

namespace Becomes

variable {source result : Expr} {domain : Domain}

theorem domain?_eq (becomes : source.Becomes domain result) : result.domain? = some domain := by
  cases becomes <;> rfl

theorem isOperator_eq (becomes : source.Becomes domain result) : result.isOperator = false := by
  cases becomes <;> rfl

theorem ownNodes_eq (becomes : source.Becomes domain result) : result.ownNodes = [result] := by
  cases becomes <;> rfl

end Becomes

/-- What has no domain yet gets the one it is resolved to, and becomes no operator. -/
theorem tagged_resolve {source : Expr} (untagged : source.domain? = none) (domain : Domain) :
    (source.resolve domain).value.domain? = some domain ∧
      (source.resolve domain).value.isOperator = false := by
  by_cases isTerm : source.isResolved = true
  · have becomes := becomes_resolve untagged isTerm domain
    exact ⟨becomes.domain?_eq, becomes.isOperator_eq⟩
  · cases source with
    | unresolved fragments range =>
        rcases exists_resolved_of_list (.ofDomain domain) fragments range with ⟨_, _, resolved, _⟩
        rw [resolve, resolved, OperatorTable.domain_ofDomain]
        exact ⟨rfl, rfl⟩
    | _ => exact absurd rfl isTerm

/-- What has no domain yet is a term that becomes a single node, or a list. -/
theorem cases_of_mem_ownNodes {source node : Expr} {domain : Domain}
    (untagged : source.domain? = none) (own : node ∈ (source.resolve domain).value.ownNodes) :
    source.Becomes domain node ∨
      ∃ fragments range, source = .unresolved fragments range ∧ node.OwnedByList range domain := by
  by_cases isTerm : source.isResolved = true
  · have becomes := becomes_resolve untagged isTerm domain
    rw [becomes.ownNodes_eq] at own
    cases List.mem_singleton.mp own
    exact .inl becomes
  · cases source with
    | unresolved fragments range =>
        have owned := ownedByList_of_mem_ownNodes own
        rw [OperatorTable.domain_ofDomain] at owned
        exact .inr ⟨fragments, range, rfl, owned⟩
    | _ => exact absurd rfl isTerm

end Expr

/-! ## Nodes of a tree -/

/-- Every one of some nodes belongs to what one of the sources is resolved to,
and as long as resolution is calm every source that is no word has become a node. -/
structure Traced (sources nodes : List Expr) (calm : Prop) : Prop where
  origin : ∀ node ∈ nodes, ∃ source ∈ sources, ∃ domain,
    node ∈ (source.resolve domain).value.ownNodes
  kept : calm → ∀ source ∈ sources, source.word? = none →
    ∃ domain, (source.resolve domain).value ∈ nodes

namespace Traced

variable {sources nodes : List Expr} {calm : Prop}

theorem nil : Traced [] [] calm :=
  ⟨List.forall_mem_nil _, fun _ => List.forall_mem_nil _⟩

theorem append {moreSources moreNodes : List Expr} {first second : Prop}
    (left : Traced sources nodes first) (right : Traced moreSources moreNodes second)
    (both : calm → first ∧ second) : Traced (sources ++ moreSources) (nodes ++ moreNodes) calm where
  origin := by
    intro node isNode
    rcases List.mem_append.mp isNode with inLeft | inRight
    · rcases left.origin node inLeft with ⟨source, isSource, own⟩
      exact ⟨source, List.mem_append_left _ isSource, own⟩
    · rcases right.origin node inRight with ⟨source, isSource, own⟩
      exact ⟨source, List.mem_append_right _ isSource, own⟩
  kept := by
    intro quiet source isSource noWord
    rcases List.mem_append.mp isSource with inLeft | inRight
    · rcases left.kept (both quiet).1 source inLeft noWord with ⟨domain, isNode⟩
      exact ⟨domain, List.mem_append_left _ isNode⟩
    · rcases right.kept (both quiet).2 source inRight noWord with ⟨domain, isNode⟩
      exact ⟨domain, List.mem_append_right _ isNode⟩

/-- A term becomes a single node, with what is inside it resolved. -/
theorem term {source : Expr} {domain : Domain} (inner : Traced sources nodes calm)
    (own : (source.resolve domain).value.ownNodes = [(source.resolve domain).value]) :
    Traced (source :: sources) ((source.resolve domain).value :: nodes) calm where
  origin := by
    intro node isNode
    rcases List.mem_cons.mp isNode with rfl | inside
    · exact ⟨source, List.mem_cons_self .., domain, own ▸ List.mem_singleton_self _⟩
    · rcases inner.origin node inside with ⟨origin, isSource, own⟩
      exact ⟨origin, List.mem_cons_of_mem _ isSource, own⟩
  kept := by
    intro quiet origin isSource noWord
    rcases List.mem_cons.mp isSource with rfl | inside
    · exact ⟨domain, List.mem_cons_self ..⟩
    · rcases inner.kept quiet origin inside noWord with ⟨domain, isNode⟩
      exact ⟨domain, List.mem_cons_of_mem _ isNode⟩

end Traced

theorem Expr.word?_of_mem_nodes {expr node : Expr} (isNode : node ∈ expr.nodes false)
    (noWord : node.word? = none) : expr.word? = none := by
  cases expr with
  | symbol _ _ _ =>
      cases List.mem_singleton.mp isNode
      cases noWord
  | _ => rfl

/-- The nodes of what an expression is resolved to are traced to its own nodes. -/
def Expr.IsTraced (expr : Expr) : Prop :=
  ∀ domain, Traced (expr.nodes false) ((expr.resolve domain).value.nodes false)
    ((expr.resolve domain).diagnostics = [])

/-- The fragments of a list hold the nodes of words and the nodes of operands. -/
theorem isTraced_unresolved {fragments : List Expr}
    (traced : ∀ fragment ∈ fragments, fragment.IsTraced) (range : Range) :
    (Expr.unresolved fragments range).IsTraced := by
  intro domain
  constructor
  · intro node isNode
    rcases origin_of_list isNode with own | ⟨fragment, isFragment, operandDomain, resolved⟩
    · exact ⟨.unresolved fragments range, List.mem_cons_self .., domain, own⟩
    · rcases (traced fragment isFragment operandDomain).origin node resolved with
        ⟨source, isSource, own⟩
      have inside := mem_nodesOfEach.mpr ⟨fragment, isFragment, isSource⟩
      exact ⟨source, List.mem_cons_of_mem _ inside, own⟩
  · intro calm source isSource noWord
    rcases List.mem_cons.mp isSource with rfl | inside
    · exact ⟨domain, Expr.mem_nodes_self false _⟩
    · rcases mem_nodesOfEach.mp inside with ⟨fragment, isFragment, inFragment⟩
      have fragmentNoWord := Expr.word?_of_mem_nodes inFragment noWord
      rcases exists_resolution_of_list calm isFragment fragmentNoWord with
        ⟨operandDomain, quiet, resolved⟩
      rcases (traced fragment isFragment operandDomain).kept quiet source inFragment noWord with
        ⟨sourceDomain, isNode⟩
      exact ⟨sourceDomain, resolved _ isNode⟩

/-- None of some nodes has a domain yet. -/
def AllUntagged (nodes : List Expr) : Prop :=
  ∀ node ∈ nodes, node.domain? = none

theorem allUntagged_cons {node : Expr} {rest : List Expr} :
    AllUntagged (node :: rest) ↔ node.domain? = none ∧ AllUntagged rest :=
  List.forall_mem_cons

theorem allUntagged_append {first second : List Expr} :
    AllUntagged (first ++ second) ↔ AllUntagged first ∧ AllUntagged second :=
  List.forall_mem_append

theorem AllFresh.untagged {nodes : List Expr} (fresh : AllFresh nodes) : AllUntagged nodes :=
  fun node isNode => (fresh node isNode).untagged

namespace AllUntagged

variable {subjects : Bool}

/-- The nodes of a fragment have no domain when those of its list have none. -/
theorem of_mem {fragments : List Expr} (untagged : AllUntagged (nodesOfEach subjects fragments))
    {fragment : Expr} (isFragment : fragment ∈ fragments) :
    AllUntagged (fragment.nodes subjects) := by
  intro node isNode
  exact untagged node (mem_nodesOfEach.mpr ⟨fragment, isFragment, isNode⟩)

theorem fragments {fragments : List Expr} {range : Range}
    (untagged : AllUntagged ((Expr.unresolved fragments range).nodes subjects)) :
    ∀ fragment ∈ fragments, fragment.domain? = none := by
  intro fragment isFragment
  have inside := (allUntagged_cons.mp untagged).2.of_mem isFragment
  exact inside fragment (fragment.mem_nodes_self subjects)

variable {expr : Expr}

theorem of_mem_nodes (untagged : AllUntagged (expr.nodes subjects)) {source : Expr}
    (isSource : source ∈ expr.nodes subjects) : AllUntagged (source.nodes subjects) :=
  fun inner isInner => untagged inner (Expr.mem_nodes_trans isSource isInner)

/-- What holds of all nodes holds of those outside the subjects of attributes. -/
theorem surface (untagged : AllUntagged (expr.nodes true)) : AllUntagged (expr.nodes false) :=
  fun node outside => untagged node (Expr.nodes_subset outside)

end AllUntagged

mutual

/-- The nodes of what an expression without domains is resolved to are traced to its nodes. -/
theorem Expr.traced : ∀ expr : Expr, AllUntagged (expr.nodes false) → expr.IsTraced
  | .constant _ _ _, _ | .symbol _ _ _, _ | .symbolAttribute _ _ _ _, _
  | .variableAttribute _ _ _ _, _ => fun _ => Traced.nil.term rfl
  | .variableTerm reference none, untagged => by
      have inner := reference.traced (allUntagged_cons.mp untagged).2
      intro domain
      have same : ((Expr.variableTerm reference none).resolve domain).diagnostics =
          reference.resolve.diagnostics := List.append_nil _
      rw [same]
      exact inner.term rfl
  | .string ⟨duplication, chain, ⟨start, count, toEnd⟩⟩ range none, untagged => by
      rcases allUntagged_append.mp (allUntagged_cons.mp untagged).2 with ⟨outer, bounds⟩
      rcases allUntagged_append.mp outer with ⟨factor, pieces⟩
      rcases allUntagged_append.mp bounds with ⟨first, second⟩
      have text := (traced_number duplication factor).append (traced_chain chain pieces) id
      have selected := (traced_number start first).append (traced_number count second) id
      intro domain
      apply Traced.term _ rfl
      apply text.append selected
      intro calm
      simp only [Expr.resolve, Expr.resolveWith, Reported.diagnostics_bind,
        Reported.diagnostics_pure, List.append_nil, List.append_eq_nil_iff] at calm
      exact ⟨⟨calm.2.1, calm.1⟩, calm.2.2⟩
  | .unresolved fragments range, untagged =>
      isTraced_unresolved (traced_each fragments (allUntagged_cons.mp untagged).2) range
  | .variableTerm _ (some _), untagged | .string _ _ (some _), untagged
  | .resolved _ _ _ _, untagged | .unary _ _ _ _ _, untagged | .binary _ _ _ _ _ _, untagged =>
      nomatch (allUntagged_cons.mp untagged).1

theorem VariableSymbol.traced :
    ∀ reference : VariableSymbol, AllUntagged (reference.nodes false) →
      Traced (reference.nodes false) (reference.resolve.value.nodes false)
        (reference.resolve.diagnostics = [])
  | ⟨.basic _, subscript, _⟩, untagged => by
      have indices := traced_numbers subscript (allUntagged_append.mp untagged).2
      apply Traced.nil.append indices
      intro calm
      exact ⟨trivial, (List.append_eq_nil_iff.mp calm).1⟩
  | ⟨.created chain, subscript, _⟩, untagged => by
      rcases allUntagged_append.mp untagged with ⟨pieces, indices⟩
      apply (traced_chain chain pieces).append (traced_numbers subscript indices)
      intro calm
      rcases List.append_eq_nil_iff.mp calm with ⟨first, second⟩
      exact ⟨first, (List.append_eq_nil_iff.mp second).1⟩

theorem ChainItem.traced :
    ∀ item : ChainItem, AllUntagged (item.nodes false) →
      Traced (item.nodes false) (item.resolve.value.nodes false) (item.resolve.diagnostics = [])
  | .text _, _ | .dot, _ | .equals, _ => .nil
  | .variableItem reference, untagged => by
      have same : (ChainItem.variableItem reference).resolve.diagnostics =
          reference.resolve.diagnostics := List.append_nil _
      rw [same]
      exact reference.traced untagged
  | .sublist members, untagged => by
      have same : (ChainItem.sublist members).resolve.diagnostics =
          (resolveMembers members).diagnostics := List.append_nil _
      rw [same]
      exact traced_members members untagged

theorem traced_chain :
    ∀ chain : List ChainItem, AllUntagged (nodesOfChain false chain) →
      Traced (nodesOfChain false chain) (nodesOfChain false (resolveChain chain).value)
        ((resolveChain chain).diagnostics = [])
  | [], _ => .nil
  | item :: rest, untagged => by
      rcases allUntagged_append.mp untagged with ⟨first, others⟩
      apply (item.traced first).append (traced_chain rest others)
      intro calm
      rcases List.append_eq_nil_iff.mp calm with ⟨quiet, further⟩
      exact ⟨quiet, (List.append_eq_nil_iff.mp further).1⟩

theorem traced_members :
    ∀ members : List (List ChainItem), AllUntagged (nodesOfMembers false members) →
      Traced (nodesOfMembers false members) (nodesOfMembers false (resolveMembers members).value)
        ((resolveMembers members).diagnostics = [])
  | [], _ => .nil
  | chain :: rest, untagged => by
      rcases allUntagged_append.mp untagged with ⟨first, others⟩
      apply (traced_chain chain first).append (traced_members rest others)
      intro calm
      rcases List.append_eq_nil_iff.mp calm with ⟨quiet, further⟩
      exact ⟨quiet, (List.append_eq_nil_iff.mp further).1⟩

theorem traced_numbers :
    ∀ exprs : List Expr, AllUntagged (nodesOfEach false exprs) →
      Traced (nodesOfEach false exprs) (nodesOfEach false (resolveNumbers exprs).value)
        ((resolveNumbers exprs).diagnostics = [])
  | [], _ => .nil
  | expr :: rest, untagged => by
      rcases allUntagged_append.mp untagged with ⟨first, others⟩
      apply (expr.traced first .arithmetic).append (traced_numbers rest others)
      intro calm
      rcases List.append_eq_nil_iff.mp calm with ⟨quiet, further⟩
      exact ⟨quiet, (List.append_eq_nil_iff.mp further).1⟩

theorem traced_number :
    ∀ expr : Option Expr, AllUntagged (nodesOfOption false expr) →
      Traced (nodesOfOption false expr) (nodesOfOption false (resolveNumber expr).value)
        ((resolveNumber expr).diagnostics = [])
  | none, _ => .nil
  | some expr, untagged => by
      have same : (resolveNumber (some expr)).diagnostics =
          (expr.resolve .arithmetic).diagnostics := List.append_nil _
      rw [same]
      exact expr.traced untagged .arithmetic

theorem traced_each :
    ∀ fragments : List Expr, AllUntagged (nodesOfEach false fragments) →
      ∀ fragment ∈ fragments, fragment.IsTraced
  | [], _ => nofun
  | fragment :: rest, untagged => by
      rcases allUntagged_append.mp untagged with ⟨first, others⟩
      exact List.forall_mem_cons.mpr ⟨fragment.traced first, traced_each rest others⟩

end

/-- What stands inside the subject of an attribute stood there before. -/
theorem mem_nodes_of_inSubject {expr node : Expr} (untagged : AllUntagged (expr.nodes true))
    {domain : Domain} (inside : InSubject node ((expr.resolve domain).value.nodes false)) :
    node ∈ expr.nodes true := by
  have surface := untagged.surface
  rcases inside with ⟨kind, reference, range, tag, isAttribute, isInner⟩
  rcases (expr.traced surface domain).origin _ isAttribute with ⟨source, isSource, _, own⟩
  rcases Expr.cases_of_mem_ownNodes (surface source isSource) own with becomes | ⟨_, _, _, owned⟩
  · cases becomes
    exact Expr.mem_nodes_iff.mpr (.inr ⟨kind, reference, range, none, isSource, isInner⟩)
  · cases owned

end ConditionalAssembly
