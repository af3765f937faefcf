import Mathlib
import ConditionalAssembly.Proofs.Resolution.Origins

/-!
# The domains in a resolved tree

Every node of a tree is marked with a domain once, when the operator it stands
under is built, when its list is finished, or when its term is resolved.  The
marks agree with each other: an operator carries what one entry of the table of
its list says, an operand has the domain its operator takes, and what a term
takes a number from is an arithmetic list.  Only inside the subject of an
attribute, which resolution leaves as it was read, numbers stay unresolved.
-/

namespace ConditionalAssembly

/-! ## Marks that agree -/

/-- The operands may belong to a domain; compared ones are numbers or texts. -/
def Operands.Admits : Operands → Domain → Prop
  | .fixed domain, given => given = domain
  | .comparable, given => given = .arithmetic ∨ given = .character

/-- What an operator node carries is what an entry says. -/
structure OperatorEntry.Describes {ω : Type} (entry : OperatorEntry ω) (operator : ω)
    (domain operandDomain : Domain) : Prop where
  operator : entry.operator = operator
  result : entry.result = domain
  operands : entry.operands.Admits operandDomain

namespace Expr

/-- The node of an operator carries what one entry of a table says. -/
def ComesFrom (table : OperatorTable) : Expr → Prop
  | .unary operator _ _ domain operandDomain =>
      ∃ entry, .unary entry ∈ table.entries ∧ entry.Describes operator domain operandDomain
  | .binary operator _ _ _ domain operandDomain =>
      ∃ entry, .binary entry ∈ table.entries ∧ entry.Describes operator domain operandDomain
  | _ => False

/-- A term or a list, standing where a domain is asked for, is marked with the domain. -/
def StandsIn (domain : Domain) (expr : Expr) : Prop :=
  expr.isOperator = false → expr.domain? = some domain

/-- The marks around a node agree: the operators of a list come from the table of its domain, and
operands and roots have the domain that is asked for. -/
def WellTagged : Expr → Prop
  | .resolved root _ _ domain =>
      root.StandsIn domain ∧ ∀ node ∈ root.operators, node.ComesFrom (.ofDomain domain)
  | .unary _ operand _ _ operandDomain => operand.StandsIn operandDomain
  | .binary _ left right _ _ operandDomain =>
      left.StandsIn operandDomain ∧ right.StandsIn operandDomain
  | _ => True

/-- The expression is a list that was resolved to a number. -/
def IsArithmeticList : Expr → Prop
  | .resolved _ _ _ domain => domain = .arithmetic
  | _ => False

/-- A term takes its numbers from lists that were resolved to numbers. -/
def HasArithmeticNumbers (node : Expr) : Prop :=
  ∀ number ∈ node.numbers, number.IsArithmeticList

end Expr

/-! ## Single expressions -/

theorem Operands.admits_domain (operands : Operands) {compared : Domain}
    (comparable : compared = .arithmetic ∨ compared = .character) :
    operands.Admits (operands.domain compared) := by
  cases operands with
  | fixed domain => rfl
  | comparable => exact comparable

namespace Expr

theorem operators_eq_nil {expr : Expr} (noOperator : expr.isOperator = false) :
    expr.operators = [] := by
  cases expr with
  | unary _ _ _ _ _ | binary _ _ _ _ _ _ => cases noOperator
  | _ => rfl

end Expr

/-! ## Phrases and lists -/

namespace Phrase

variable {table : OperatorTable} {phrase : Phrase Expr}

/-- The tree of a phrase stands in the domain the phrase is resolved to. -/
theorem standsIn_tree (untagged : ∀ fragment ∈ phrase.operands, fragment.domain? = none)
    (domain : Domain) : (phrase.tree domain).StandsIn domain := by
  cases phrase with
  | operand fragment =>
      intro _
      exact (Expr.tagged_resolve (untagged fragment (List.mem_singleton_self fragment)) domain).1
  | unary _ _ _ | binary _ _ _ _ => exact nofun

/-- An operator in the tree of a phrase comes from the table, and its operands
have the domain it takes. -/
theorem tagged_of_mem_operators (spelled : phrase.Spelled table Expr.word?)
    (untagged : ∀ fragment ∈ phrase.operands, fragment.domain? = none) {domain : Domain}
    {node : Expr} (isOperator : node ∈ (phrase.tree domain).operators) :
    node.ComesFrom table ∧ node.WellTagged := by
  induction phrase generalizing domain with
  | operand fragment =>
      have resolved :=
        Expr.tagged_resolve (untagged fragment (List.mem_singleton_self fragment)) domain
      rw [tree, Expr.operators_eq_nil resolved.2] at isOperator
      cases isOperator
  | unary entry word inner ih =>
      rcases spelled with ⟨isEntry, _, innerSpelled⟩
      have innerUntagged : ∀ fragment ∈ inner.operands, fragment.domain? = none := untagged
      rcases List.mem_cons.mp isOperator with rfl | inside
      · have admits := entry.operands.admits_domain (.inl rfl)
        exact ⟨⟨entry, isEntry, rfl, rfl, admits⟩, standsIn_tree innerUntagged _⟩
      · exact ih innerSpelled innerUntagged inside
  | binary entry words left right ihLeft ihRight =>
      rcases spelled with ⟨⟨isEntry, _⟩, leftSpelled, rightSpelled⟩
      rcases List.forall_mem_append.mp untagged with ⟨leftUntagged, rightUntagged⟩
      rcases List.mem_cons.mp isOperator with rfl | inside
      · have admits : entry.operands.Admits (binaryDomain entry left right) := by
          apply entry.operands.admits_domain
          cases left.isCharacter || right.isCharacter
          · exact .inl rfl
          · exact .inr rfl
        constructor
        · exact ⟨entry, isEntry, rfl, rfl, admits⟩
        · exact ⟨standsIn_tree leftUntagged _, standsIn_tree rightUntagged _⟩
      · rcases List.mem_append.mp inside with inLeft | inRight
        · exact ihLeft leftSpelled leftUntagged inLeft
        · exact ihRight rightSpelled rightUntagged inRight

end Phrase

/-- The nodes a list owns carry what the table of the list says. -/
theorem tagged_of_mem_ownNodes_of_list {fragments : List Expr} {range : Range} {domain : Domain}
    (untagged : ∀ fragment ∈ fragments, fragment.domain? = none) {node : Expr}
    (own : node ∈ ((Expr.unresolved fragments range).resolve domain).value.ownNodes) :
    (node.isOperator → node.ComesFrom (.ofDomain domain)) ∧ node.WellTagged := by
  rw [Expr.resolve] at own
  rcases resolveWith_list_cases (.ofDomain domain) fragments range with
    ⟨phrase, formed, resolved⟩ | ⟨recovered, _⟩
  · have spelled := Phrase.spelled_of_ofItems formed
    have operandsUntagged : ∀ fragment ∈ phrase.operands, fragment.domain? = none := by
      intro fragment isOperand
      have isFragment := Phrase.mem_items_of_mem_operands isOperand
      rw [Phrase.items_of_ofItems formed] at isFragment
      exact untagged fragment isFragment
    have tagged {domain : Domain} {node : Expr}
        (isOperator : node ∈ (phrase.tree domain).operators) :=
      Phrase.tagged_of_mem_operators spelled operandsUntagged isOperator
    rw [resolved, OperatorTable.domain_ofDomain] at own
    rcases List.mem_cons.mp own with rfl | isOperator
    · constructor
      · exact nofun
      · exact ⟨Phrase.standsIn_tree operandsUntagged domain, fun _ inside => (tagged inside).1⟩
    · exact ⟨fun _ => (tagged isOperator).1, (tagged isOperator).2⟩
  · rw [recovered, OperatorTable.domain_ofDomain] at own
    rcases List.mem_cons.mp own with rfl | isZero
    · constructor
      · exact nofun
      · exact ⟨fun _ => rfl, nofun⟩
    · cases List.mem_singleton.mp isZero
      exact ⟨nofun, trivial⟩

/-! ## Numbers in terms -/

mutual

/-- The subscripts in a reference are resolved to numbers. -/
theorem VariableSymbol.numbers_resolve :
    ∀ reference : VariableSymbol, reference.resolve.value.numbers =
      reference.numbers.map fun number => (number.resolve .arithmetic).value
  | ⟨.basic _, subscript, _⟩ => resolveNumbers_eq_map subscript
  | ⟨.created chain, subscript, _⟩ => by
      have pieces := numbers_resolveChain chain
      have indices := resolveNumbers_eq_map subscript
      change numbersOfChain (resolveChain chain).value ++ (resolveNumbers subscript).value =
        List.map _ (numbersOfChain chain ++ subscript)
      rw [List.map_append, pieces, indices]

theorem ChainItem.numbers_resolve :
    ∀ item : ChainItem, item.resolve.value.numbers =
      item.numbers.map fun number => (number.resolve .arithmetic).value
  | .text _ | .dot | .equals => rfl
  | .variableItem reference => reference.numbers_resolve
  | .sublist members => numbers_resolveMembers members

theorem numbers_resolveChain :
    ∀ chain : List ChainItem, numbersOfChain (resolveChain chain).value =
      (numbersOfChain chain).map fun number => (number.resolve .arithmetic).value
  | [] => rfl
  | item :: rest => by
      have first := item.numbers_resolve
      have others := numbers_resolveChain rest
      change item.resolve.value.numbers ++ numbersOfChain (resolveChain rest).value =
        List.map _ (item.numbers ++ numbersOfChain rest)
      rw [List.map_append, first, others]

theorem numbers_resolveMembers :
    ∀ members : List (List ChainItem), numbersOfMembers (resolveMembers members).value =
      (numbersOfMembers members).map fun number => (number.resolve .arithmetic).value
  | [] => rfl
  | chain :: rest => by
      have first := numbers_resolveChain chain
      have others := numbers_resolveMembers rest
      change numbersOfChain (resolveChain chain).value ++
          numbersOfMembers (resolveMembers rest).value =
        List.map _ (numbersOfChain chain ++ numbersOfMembers rest)
      rw [List.map_append, first, others]

end

/-- A number that may be missing is resolved like any other. -/
theorem toList_resolveNumber (expr : Option Expr) :
    (resolveNumber expr).value.toList =
      expr.toList.map fun number => (number.resolve .arithmetic).value := by
  cases expr <;> rfl

theorem Expr.Becomes.numbers_eq {source result : Expr} {domain : Domain}
    (becomes : source.Becomes domain result) :
    result.numbers = source.numbers.map fun number => (number.resolve .arithmetic).value := by
  cases becomes with
  | constant _ _ | symbol _ _ | symbolAttribute _ _ _ | variableAttribute _ _ _ => rfl
  | variableTerm reference => exact reference.numbers_resolve
  | string _ _ _ _ _ _ =>
      simp only [Expr.numbers, StringTerm.numbers, Selection.numbers, toList_resolveNumber,
        numbers_resolveChain, List.map_append]

theorem Expr.isArithmeticList_resolve {expr : Expr} (isList : expr.isResolved = false) :
    (expr.resolve .arithmetic).value.IsArithmeticList := by
  cases expr with
  | unresolved fragments range =>
      rcases exists_resolved_of_list .arithmetic fragments range with ⟨_, _, resolved, _⟩
      rw [Expr.resolve, OperatorTable.ofDomain, resolved]
      rfl
  | _ => cases isList

theorem Expr.OwnedByList.numbers_eq_nil {node : Expr} {range : Range} {domain : Domain}
    (owned : node.OwnedByList range domain) : node.numbers = [] := by
  cases owned <;> rfl

/-! ## Trees -/

theorem Expr.wellTagged_of_untagged {node : Expr} (untagged : node.domain? = none) :
    node.isOperator = false ∧ node.WellTagged := by
  cases node with
  | resolved _ _ _ _ | unary _ _ _ _ _ | binary _ _ _ _ _ _ => cases untagged
  | _ => exact ⟨rfl, trivial⟩

/-- Around a term there is nothing to agree with. -/
theorem Expr.Becomes.wellTagged {source result : Expr} {domain : Domain}
    (becomes : source.Becomes domain result) : result.WellTagged := by
  cases becomes <;> trivial

/-- An operator in the tree of an expression that no part of was resolved comes from one of the
tables. -/
theorem Expr.comesFrom_of_mem_nodes {expr node : Expr} (untagged : AllUntagged (expr.nodes true))
    {domain : Domain} (isNode : node ∈ (expr.resolve domain).value.nodes true)
    (isOperator : node.isOperator = true) : ∃ table, node.ComesFrom (.ofDomain table) := by
  rcases Expr.mem_nodes_iff.mp isNode with outside | inside
  · have surface := untagged.surface
    obtain ⟨source, isSource, table, own⟩ := (expr.traced surface domain).origin node outside
    rcases Expr.cases_of_mem_ownNodes (surface source isSource) own with
      becomes | ⟨fragments, range, rfl, _⟩
    · exact nomatch becomes.isOperator_eq.symm.trans isOperator
    · have fragmentsUntagged := (surface.of_mem_nodes isSource).fragments
      exact ⟨table, (tagged_of_mem_ownNodes_of_list fragmentsUntagged own).1 isOperator⟩
  · -- Resolution leaves the subjects of attributes alone, so there is no operator in them.
    have bare := untagged node (mem_nodes_of_inSubject untagged inside)
    cases (Expr.wellTagged_of_untagged bare).1.symm.trans isOperator

/-- A node outside the subjects of attributes is marked as it should be. -/
structure Expr.Tagged (node : Expr) : Prop where
  around : node.WellTagged
  numbers : node.HasArithmeticNumbers

/-- What a node of a fresh expression is resolved to is marked as it should be. -/
theorem tagged_of_mem_ownNodes {source node : Expr} {domain : Domain}
    (fresh : AllFresh (source.nodes false))
    (own : node ∈ (source.resolve domain).value.ownNodes) : node.Tagged := by
  have sourceFresh := fresh source (source.mem_nodes_self false)
  rcases Expr.cases_of_mem_ownNodes sourceFresh.untagged own with
    becomes | ⟨fragments, range, rfl, owned⟩
  · constructor
    · exact becomes.wellTagged
    · intro number isNumber
      rw [becomes.numbers_eq] at isNumber
      rcases List.mem_map.mp isNumber with ⟨list, isList, rfl⟩
      exact Expr.isArithmeticList_resolve (sourceFresh.numbers list isList)
  · constructor
    · exact (tagged_of_mem_ownNodes_of_list fresh.untagged.fragments own).2
    · intro number isNumber
      rw [owned.numbers_eq_nil] at isNumber
      cases isNumber

theorem Expr.tagged_of_mem_nodes {expr node : Expr} (fresh : AllFresh (expr.nodes false))
    {domain : Domain} (isNode : node ∈ (expr.resolve domain).value.nodes false) : node.Tagged := by
  rcases (expr.traced fresh.untagged domain).origin node isNode with ⟨source, isSource, _, own⟩
  apply tagged_of_mem_ownNodes _ own
  intro inner isInner
  exact fresh inner (Expr.mem_nodes_trans isSource isInner)

theorem isFresh_of_inSubject {expr node : Expr} (fresh : AllFresh (expr.nodes true))
    {domain : Domain} (inside : InSubject node ((expr.resolve domain).value.nodes false)) :
    node.IsFresh := by
  exact fresh node (mem_nodes_of_inSubject fresh.untagged inside)

/-- The domains of a resolved tree agree: every operator of a list carries what one entry of the
list's table says, operands and roots are marked with the domain that is asked for, and numbers
are arithmetic lists.  The numbers of terms inside the subjects of attributes are the exception,
so numbers are arithmetic lists everywhere exactly when there are none of those. -/
theorem resolve_tags {source : String} {expr : Expr} (read : Expr.read source = .ok expr)
    (domain : Domain) :
    let tree := (expr.resolve domain).value
    (∀ node ∈ tree.nodes true, node.WellTagged) ∧
      (∀ node ∈ tree.nodes false, node.HasArithmeticNumbers) ∧
      ((∀ node ∈ tree.nodes true, node.HasArithmeticNumbers) ↔
        ∀ node, InSubject node (tree.nodes false) → node.numbers = []) := by
  intro tree
  have surface : AllFresh (expr.nodes false) := Expr.allFresh_of_read read
  have tagged {node : Expr} (outside : node ∈ tree.nodes false) : node.Tagged :=
    Expr.tagged_of_mem_nodes surface outside
  have untouched {node : Expr} (inside : InSubject node (tree.nodes false)) : node.IsFresh :=
    isFresh_of_inSubject (Expr.allFresh_of_read read) inside
  constructor
  · intro node isNode
    rcases Expr.mem_nodes_iff.mp isNode with outside | inside
    · exact (tagged outside).around
    · exact (Expr.wellTagged_of_untagged (untouched inside).untagged).2
  constructor
  · intro node outside
    exact (tagged outside).numbers
  constructor
  · intro arithmetic node inside
    apply List.eq_nil_iff_forall_not_mem.mpr
    intro number isNumber
    have isList := (untouched inside).numbers number isNumber
    have resolved := arithmetic node (Expr.mem_nodes_iff.mpr (.inr inside)) number isNumber
    cases number with
    | unresolved _ _ => cases resolved
    | _ => cases isList
  · intro none node isNode
    rcases Expr.mem_nodes_iff.mp isNode with outside | inside
    · exact (tagged outside).numbers
    · intro number isNumber
      rw [none node inside] at isNumber
      cases isNumber

/-- What is read from `&X(1)+5`. -/
def elementPlusFive : Expr :=
  .unresolved
    [.variableTerm ⟨.basic "X", [.unresolved [.constant 1 (.columns 3 4) none] (.columns 3 4)],
      .columns 0 5⟩ none, .symbol "+" (.columns 5 6) none, .constant 5 (.columns 6 7) none]
    (.columns 0 7)

/-- What is read from `K'&X(&Y(1))`. -/
def lengthOfNestedElement : Expr :=
  .unresolved
    [.variableAttribute .count
      ⟨.basic "X",
        [.unresolved
          [.variableTerm
            ⟨.basic "Y", [.unresolved [.constant 1 (.columns 8 9) none] (.columns 8 9)],
              .columns 5 10⟩ none]
          (.columns 5 10)],
        .columns 2 11⟩ (.columns 0 11) none]
    (.columns 0 11)

/-- In `&X(1)+5` all domains agree, and the subscript is an arithmetic list. -/
theorem resolve_tags_element_sum :
    let tree := (elementPlusFive.resolve .arithmetic).value
    Expr.read "&X(1)+5" = .ok elementPlusFive ∧ (∀ node ∈ tree.nodes true, node.WellTagged) ∧
      ∀ node ∈ tree.nodes true, node.HasArithmeticNumbers := by
  intro tree
  have read : Expr.read "&X(1)+5" = .ok elementPlusFive := by cbv
  have resolved : tree = .resolved
      (.binary .add
        (.variableTerm ⟨.basic "X", [.resolved (.constant 1 (.columns 3 4) (some .arithmetic)) false
          (.columns 3 4) .arithmetic], .columns 0 5⟩ (some .arithmetic))
        (.constant 5 (.columns 6 7) (some .arithmetic)) (.columns 0 7) .arithmetic .arithmetic)
      false (.columns 0 7) .arithmetic := by
    change (elementPlusFive.resolve .arithmetic).value = _
    cbv
  rcases resolve_tags read .arithmetic with ⟨tagged, _, everywhere⟩
  constructor
  · exact read
  constructor
  · exact tagged
  · apply everywhere.mpr
    rintro node ⟨kind, reference, range, domain, isAttribute, _⟩
    change _ ∈ tree.nodes false at isAttribute
    simp [resolved, Expr.nodes, VariableSymbol.nodes, VariableName.nodes, nodesOfEach]
      at isAttribute

/-- In `K'&X(&Y(1))` the subscript of `&Y` stays a list that is not resolved. -/
theorem numbers_in_subject_stay_lists :
    let tree := (lengthOfNestedElement.resolve .arithmetic).value
    Expr.read "K'&X(&Y(1))" = .ok lengthOfNestedElement ∧
      ∃ node ∈ tree.nodes true, ∃ number ∈ node.numbers, ¬ number.IsArithmeticList := by
  have resolved : (lengthOfNestedElement.resolve .arithmetic).value = .resolved
      (.variableAttribute .count
        ⟨.basic "X",
          [.unresolved
            [.variableTerm
              ⟨.basic "Y", [.unresolved [.constant 1 (.columns 8 9) none] (.columns 8 9)],
                .columns 5 10⟩ none]
            (.columns 5 10)],
          .columns 2 11⟩ (.columns 0 11) (some .arithmetic))
      false (.columns 0 11) .arithmetic := by cbv
  constructor
  · cbv
  · refine ⟨.variableTerm
      ⟨.basic "Y", [.unresolved [.constant 1 (.columns 8 9) none] (.columns 8 9)],
        .columns 5 10⟩ none, ?_, _, List.mem_singleton_self _, id⟩
    simp [resolved, Expr.nodes, VariableSymbol.nodes, VariableName.nodes, nodesOfEach]

end ConditionalAssembly
