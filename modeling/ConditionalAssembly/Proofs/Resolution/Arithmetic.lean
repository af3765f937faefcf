import ConditionalAssembly.Proofs.Evaluation.Operators
import ConditionalAssembly.Proofs.Expr.Dependencies
import ConditionalAssembly.Proofs.Resolution.Comparisons

/-!
# Trees of numbers

A tree that is resolved to a number and made of numbers, signs and basic
operations only is marked with the arithmetic domain throughout: a sign or a
basic operation takes and gives numbers in every table, a list hands the domain
on to its root, and subscripts are resolved to numbers wherever they stand.
-/

namespace ConditionalAssembly

/-! ## Parts of sums -/

namespace Part

/-- The part may stand in a sum: it is a number, a symbol, a variable, a list, a sign or a basic
operation. -/
def IsArithmetic : Part → Prop
  | .term (.constant _ _ _) | .term (.symbol _ _ _) | .term (.variableTerm _ _)
  | .term (.resolved _ _ _ _) | .reference _ => True
  | .term (.unary operator _ _ _ _) => operator.isSign = true
  | .term (.binary operator _ _ _ _ _) => operator.isBasic = true
  | .term _ => False

/-- The part takes numbers and gives one.  A list that stands in for fragments which form no
expression gives zero. -/
def IsMarked : Part → Prop
  | .term (.unary _ _ _ domain operandDomain) | .term (.binary _ _ _ _ domain operandDomain) =>
      domain = .arithmetic ∧ operandDomain = .arithmetic
  | .term (.resolved root recovered range domain) =>
      domain = .arithmetic ∧ (recovered = true → root = .constant 0 range (some .arithmetic))
  | .term expr => expr.domain? = some .arithmetic
  | .reference symbol => ∀ number ∈ symbol.numbers, number.domain? = some .arithmetic

/-- What is marked has the arithmetic domain. -/
theorem IsMarked.domain? {expr : Expr} (marked : (term expr).IsMarked) :
    expr.domain? = some .arithmetic := by
  cases expr with
  | unary _ _ _ _ _ | binary _ _ _ _ _ _ | resolved _ _ _ _ => exact congrArg some marked.1
  | _ => exact marked

end Part

/-! ## Signs and basic operations in the tables -/

theorem UnaryOperator.eq_arithmetic_of_gives? {operator : UnaryOperator}
    (isSign : operator.isSign = true) {operand result : Domain}
    (gives : operator.gives? operand = some result) :
    result = .arithmetic ∧ operand = .arithmetic := by
  cases operator with
  | plus | minus => cases operand <;> cases gives; exact ⟨rfl, rfl⟩
  | _ => cases isSign

theorem BinaryOperator.eq_arithmetic_of_gives? {operator : BinaryOperator}
    (isBasic : operator.isBasic = true) {operands result : Domain}
    (gives : operator.gives? operands = some result) :
    result = .arithmetic ∧ operands = .arithmetic := by
  cases operator with
  | add | sub | mul | div => cases operands <;> cases gives; exact ⟨rfl, rfl⟩
  | _ => cases isBasic

/-- An operator of a sum is marked by whatever table it comes from. -/
theorem Expr.ComesFrom.isMarked {node : Expr} {domain : Domain}
    (comesFrom : node.ComesFrom (.ofDomain domain)) (arithmetic : (Part.term node).IsArithmetic) :
    (Part.term node).IsMarked := by
  cases node with
  | unary operator operand range result operandDomain =>
      obtain ⟨entry, isEntry, describes⟩ := comesFrom
      have gives := describes.gives?_eq (isSound_of_mem_entries isEntry)
      exact UnaryOperator.eq_arithmetic_of_gives? arithmetic gives
  | binary operator left right range result operandDomain =>
      obtain ⟨entry, isEntry, describes⟩ := comesFrom
      have gives := describes.gives?_eq (isSound_of_mem_entries isEntry)
      exact BinaryOperator.eq_arithmetic_of_gives? arithmetic gives
  | _ => exact comesFrom.elim

/-! ## Subscripts of variables -/

mutual

theorem ChainItem.numbers_eq :
    ∀ item : ChainItem, item.numbers = item.references.flatMap VariableSymbol.numbers
  | .text _ | .dot | .equals => rfl
  | .variableItem reference => (List.flatMap_singleton _ reference).symm
  | .sublist members => numbersOfMembers_eq members

theorem numbersOfChain_eq :
    ∀ chain : List ChainItem,
      numbersOfChain chain = (referencesOfChain chain).flatMap VariableSymbol.numbers
  | [] => rfl
  | item :: rest => by
      rw [numbersOfChain, referencesOfChain, List.flatMap_append, item.numbers_eq,
        numbersOfChain_eq rest]

theorem numbersOfMembers_eq :
    ∀ members : List (List ChainItem),
      numbersOfMembers members = (referencesOfMembers members).flatMap VariableSymbol.numbers
  | [] => rfl
  | chain :: rest => by
      rw [numbersOfMembers, referencesOfMembers, List.flatMap_append, numbersOfChain_eq chain,
        numbersOfMembers_eq rest]

end

theorem VariableName.numbers_eq (name : VariableName) :
    name.numbers = name.references.flatMap VariableSymbol.numbers := by
  cases name with
  | basic _ => rfl
  | created chain => exact numbersOfChain_eq chain

mutual

theorem VariableSymbol.numbers_subset :
    ∀ reference : VariableSymbol, reference.numbers ⊆ reference.nodes false
  | ⟨name, subscript, _⟩ => by
      intro number isNumber
      rcases List.mem_append.mp isNumber with inName | inSubscript
      · exact List.mem_append_left _ (name.numbers_subset inName)
      · have isNode := mem_nodesOfEach.mpr ⟨number, inSubscript, number.mem_nodes_self false⟩
        exact List.mem_append_right _ isNode

theorem VariableName.numbers_subset :
    ∀ name : VariableName, name.numbers ⊆ name.nodes false
  | .basic _ => List.nil_subset _
  | .created chain => numbersOfChain_subset chain

theorem ChainItem.numbers_subset : ∀ item : ChainItem, item.numbers ⊆ item.nodes false
  | .text _ | .dot | .equals => List.nil_subset _
  | .variableItem reference => reference.numbers_subset
  | .sublist members => numbersOfMembers_subset members

theorem numbersOfChain_subset :
    ∀ chain : List ChainItem, numbersOfChain chain ⊆ nodesOfChain false chain
  | [] => List.nil_subset _
  | item :: rest => List.append_subset.mpr
      ⟨List.subset_append_of_subset_left _ item.numbers_subset,
        List.subset_append_of_subset_right _ (numbersOfChain_subset rest)⟩

theorem numbersOfMembers_subset :
    ∀ members : List (List ChainItem), numbersOfMembers members ⊆ nodesOfMembers false members
  | [] => List.nil_subset _
  | chain :: rest => List.append_subset.mpr
      ⟨List.subset_append_of_subset_left _ (numbersOfChain_subset chain),
        List.subset_append_of_subset_right _ (numbersOfMembers_subset rest)⟩

end

/-! ## Marks of a tree -/

/-- What the marks of a tree of numbers follow from: operators come from a table, what stands where
a domain is asked for is marked with it, subscripts are resolved to numbers, and a list that stands
in for others holds zero. -/
structure Expr.Placed (node : Expr) : Prop where
  operator : node.isOperator → ∃ domain, node.ComesFrom (.ofDomain domain)
  around : node.WellTagged
  subscripts : ∀ reference domain, node = .variableTerm reference domain →
    ∀ number ∈ reference.numbers, number.domain? = some .arithmetic
  recovered : ∀ root range domain, node = .resolved root true range domain →
    root = .constant 0 range (some domain)

/-- Only operators are reached without entering a list. -/
theorem Expr.isOperator_of_mem_operators {node : Expr} :
    ∀ root : Expr, node ∈ root.operators → node.isOperator = true
  | .unary _ operand _ _ _, found => by
      rcases List.mem_cons.mp found with rfl | inside
      · rfl
      · exact isOperator_of_mem_operators operand inside
  | .binary _ left right _ _ _, found => by
      rcases List.mem_cons.mp found with rfl | inside
      · rfl
      · rcases List.mem_append.mp inside with inLeft | inRight
        · exact isOperator_of_mem_operators left inLeft
        · exact isOperator_of_mem_operators right inRight

/-- What a list owns, once it is resolved, is placed. -/
theorem Expr.placed_of_list {fragments : List Expr} {range : Range} {domain : Domain}
    (untagged : ∀ fragment ∈ fragments, fragment.domain? = none) {node : Expr}
    (own : node ∈ ((Expr.unresolved fragments range).resolve domain).value.ownNodes) :
    node.Placed := by
  obtain ⟨comesFrom, around⟩ := tagged_of_mem_ownNodes_of_list untagged own
  obtain ⟨root, recovered, resolved, standsIn⟩ :=
    exists_resolved_of_list (.ofDomain domain) fragments range
  constructor
  · intro isOperator
    exact ⟨domain, comesFrom isOperator⟩
  · exact around
  · rintro reference tag rfl
    cases ownedByList_of_mem_ownNodes own
  · rintro inner place tag rfl
    rw [Expr.resolve, resolved] at own
    rcases List.mem_cons.mp own with same | inside
    · cases same
      exact standsIn rfl
    · cases recovered with
      | true =>
          cases standsIn rfl
          cases List.mem_singleton.mp inside
      | false => cases isOperator_of_mem_operators root inside

/-- What a term becomes is placed, when it has no domain yet and nothing inside it has. -/
theorem Expr.placed_of_becomes {source node : Expr} (untagged : AllUntagged (source.nodes false))
    {domain : Domain} (becomes : source.Becomes domain node) : node.Placed := by
  constructor
  · intro isOperator
    cases becomes.isOperator_eq.symm.trans isOperator
  · exact becomes.wellTagged
  · rintro reference tag rfl
    cases becomes with
    | variableTerm read =>
        intro number isNumber
        rw [read.numbers_resolve] at isNumber
        obtain ⟨other, isOther, rfl⟩ := List.mem_map.mp isNumber
        have bare := untagged other (List.mem_cons_of_mem _ (read.numbers_subset isOther))
        rw [Expr.domain?_resolve, bare]
        rfl
  · rintro root range tag rfl
    cases becomes

theorem Expr.placed_of_mem_nodes {expr node : Expr} (untagged : AllUntagged (expr.nodes false))
    {domain : Domain} (isNode : node ∈ (expr.resolve domain).value.nodes false) : node.Placed := by
  obtain ⟨source, isSource, tag, own⟩ := (expr.traced untagged domain).origin node isNode
  have inside := untagged.of_mem_nodes isSource
  rcases Expr.cases_of_mem_ownNodes (untagged source isSource) own with
    becomes | ⟨fragments, range, rfl, _⟩
  · exact Expr.placed_of_becomes inside becomes
  · exact Expr.placed_of_list inside.fragments own

namespace Part

/-- A term of a sum that stands where a number is asked for is marked as one. -/
theorem isMarked_of_standsIn {expr : Expr} (placed : expr.Placed)
    (arithmetic : (term expr).IsArithmetic) (standsIn : expr.StandsIn .arithmetic) :
    (term expr).IsMarked := by
  by_cases isOperator : expr.isOperator = true
  · obtain ⟨domain, comesFrom⟩ := placed.operator isOperator
    exact comesFrom.isMarked arithmetic
  · have domain := standsIn (Bool.eq_false_iff.mpr isOperator)
    cases expr with
    | resolved root recovered range tag =>
        cases domain
        refine ⟨rfl, ?_⟩
        rintro rfl
        exact placed.recovered _ _ _ rfl
    | _ => first | exact domain | exact absurd rfl isOperator

/-- A part of a sum that is a term is placed. -/
structure IsSummand (part : Part) : Prop where
  arithmetic : part.IsArithmetic
  placed : ∀ expr, part = term expr → expr.Placed

/-- The marks of a part are handed on to what is directly inside it. -/
theorem isMarked_of_child {part child : Part} (summand : part.IsSummand) (marked : part.IsMarked)
    (isChild : child ∈ part.children) (childSummand : child.IsSummand) : child.IsMarked := by
  cases part with
  | reference symbol =>
      rcases symbol with ⟨name, subscript, range⟩
      rcases List.mem_append.mp isChild with inName | inSubscript
      · obtain ⟨inner, isInner, rfl⟩ := List.mem_map.mp inName
        intro number isNumber
        apply marked number
        apply List.mem_append_left
        rw [name.numbers_eq]
        exact List.mem_flatMap.mpr ⟨inner, isInner, isNumber⟩
      · obtain ⟨number, isNumber, rfl⟩ := List.mem_map.mp inSubscript
        have domain := marked number (List.mem_append_right _ isNumber)
        exact isMarked_of_standsIn (childSummand.placed number rfl) childSummand.arithmetic
          fun _ => domain
  | term expr =>
      have placed := summand.placed expr rfl
      cases expr with
      | constant _ _ _ | symbol _ _ _ | symbolAttribute _ _ _ _ => cases isChild
      | variableTerm reference domain =>
          cases List.mem_singleton.mp isChild
          exact placed.subscripts reference domain rfl
      | resolved root recovered range domain =>
          cases List.mem_singleton.mp isChild
          cases marked.1
          exact isMarked_of_standsIn (childSummand.placed root rfl) childSummand.arithmetic
            placed.around.1
      | unary operator operand range domain operandDomain =>
          cases List.mem_singleton.mp isChild
          cases marked.2
          exact isMarked_of_standsIn (childSummand.placed operand rfl) childSummand.arithmetic
            placed.around
      | binary operator left right range domain operandDomain =>
          cases marked.2
          rcases List.mem_cons.mp isChild with rfl | isRight
          · exact isMarked_of_standsIn (childSummand.placed left rfl) childSummand.arithmetic
              placed.around.1
          · cases List.mem_singleton.mp isRight
            exact isMarked_of_standsIn (childSummand.placed right rfl) childSummand.arithmetic
              placed.around.2
      | variableAttribute _ _ _ _ | string _ _ _ | unresolved _ _ => exact summand.arithmetic.elim

end Part

/-- A tree that an expression without domains is resolved to as a number, and that is made of
numbers, signs and basic operations, is marked as one throughout. -/
theorem Part.isMarked_throughout {expr : Expr} (untagged : AllUntagged (expr.nodes false))
    (arithmetic : (term (expr.resolve .arithmetic).value).Throughout IsArithmetic) :
    (term (expr.resolve .arithmetic).value).Throughout IsMarked := by
  have summand {part : Part} (inside : part.Inside (term (expr.resolve .arithmetic).value)) :
      part.IsSummand := by
    refine ⟨arithmetic part inside, ?_⟩
    rintro node rfl
    rcases Expr.mem_nodes_iff.mp (Expr.mem_nodes_iff_inside.mpr inside) with isNode | inSubject
    · exact Expr.placed_of_mem_nodes untagged isNode
    · -- Subjects of attributes are not resolved, but a sum has no attributes.
      obtain ⟨kind, reference, range, domain, isAttribute, _⟩ := inSubject
      have isNode := Expr.nodes_subset isAttribute
      exact (arithmetic _ (Expr.mem_nodes_iff_inside.mp isNode)).elim
  intro part inside
  induction inside with
  | refl =>
      have whole := summand .refl
      apply isMarked_of_standsIn (whole.placed _ rfl) whole.arithmetic
      intro _
      rw [Expr.domain?_resolve, untagged expr (expr.mem_nodes_self false)]
      rfl
  | tail before isChild marked =>
      exact isMarked_of_child (summand before) marked isChild (summand (before.tail isChild))

end ConditionalAssembly
