import ConditionalAssembly.Expr

/-!
# Equality of expressions

Two expressions are compared part by part, ranges and domains included.  The
comparison decides equality.
-/

namespace ConditionalAssembly

/-! ## Comparing part by part -/

mutual

/-- The expressions agree in every part. -/
def Expr.same : Expr → Expr → Bool
  | .constant value range domain, .constant value' range' domain' =>
      value = value' && range = range' && domain = domain'
  | .symbol name range domain, .symbol name' range' domain' =>
      name = name' && range = range' && domain = domain'
  | .variableTerm reference domain, .variableTerm reference' domain' =>
      reference.same reference' && domain = domain'
  | .symbolAttribute kind name range domain, .symbolAttribute kind' name' range' domain' =>
      kind = kind' && name = name' && range = range' && domain = domain'
  | .variableAttribute kind reference range domain,
      .variableAttribute kind' reference' range' domain' =>
      kind = kind' && reference.same reference' && range = range' && domain = domain'
  | .string term range domain, .string term' range' domain' =>
      term.same term' && range = range' && domain = domain'
  | .unresolved fragments range, .unresolved fragments' range' =>
      sameEach fragments fragments' && range = range'
  | .resolved root recovered range domain, .resolved root' recovered' range' domain' =>
      root.same root' && recovered = recovered' && range = range' && domain = domain'
  | .unary operator operand range domain operandDomain,
      .unary operator' operand' range' domain' operandDomain' =>
      operator = operator' && operand.same operand' && range = range' && domain = domain' &&
        operandDomain = operandDomain'
  | .binary operator left right range domain operandDomain,
      .binary operator' left' right' range' domain' operandDomain' =>
      operator = operator' && left.same left' && right.same right' && range = range' &&
        domain = domain' && operandDomain = operandDomain'
  | _, _ => false

/-- The references agree in every part. -/
def VariableSymbol.same : VariableSymbol → VariableSymbol → Bool
  | ⟨name, subscript, range⟩, ⟨name', subscript', range'⟩ =>
      name.same name' && sameEach subscript subscript' && range = range'

/-- The names agree in every part. -/
def VariableName.same : VariableName → VariableName → Bool
  | .basic name, .basic name' => name = name'
  | .created chain, .created chain' => sameChain chain chain'
  | _, _ => false

/-- The strings agree in every part. -/
def StringTerm.same : StringTerm → StringTerm → Bool
  | ⟨duplication, chain, selection⟩, ⟨duplication', chain', selection'⟩ =>
      sameOption duplication duplication' && sameChain chain chain' && selection.same selection'

/-- The selections agree in every part. -/
def Selection.same : Selection → Selection → Bool
  | ⟨start, count, toEnd⟩, ⟨start', count', toEnd'⟩ =>
      sameOption start start' && sameOption count count' && toEnd = toEnd'

/-- The pieces agree in every part. -/
def ChainItem.same : ChainItem → ChainItem → Bool
  | .text text, .text text' => text = text'
  | .variableItem reference, .variableItem reference' => reference.same reference'
  | .dot, .dot => true
  | .equals, .equals => true
  | .sublist members, .sublist members' => sameMembers members members'
  | _, _ => false

/-- The lists agree, expression by expression. -/
def sameEach : List Expr → List Expr → Bool
  | [], [] => true
  | expr :: rest, expr' :: rest' => expr.same expr' && sameEach rest rest'
  | _, _ => false

/-- The optional expressions agree. -/
def sameOption : Option Expr → Option Expr → Bool
  | none, none => true
  | some expr, some expr' => expr.same expr'
  | _, _ => false

/-- The chains agree, piece by piece. -/
def sameChain : List ChainItem → List ChainItem → Bool
  | [], [] => true
  | item :: rest, item' :: rest' => item.same item' && sameChain rest rest'
  | _, _ => false

/-- The lists of chains agree, chain by chain. -/
def sameMembers : List (List ChainItem) → List (List ChainItem) → Bool
  | [], [] => true
  | chain :: rest, chain' :: rest' => sameChain chain chain' && sameMembers rest rest'
  | _, _ => false

end

/-! ## The comparison decides equality -/

mutual

theorem Expr.same_iff_eq : ∀ left right : Expr, left.same right ↔ left = right
  | .constant _ _ _, right => by
      cases right <;> simp [Expr.same, and_assoc]
  | .symbol _ _ _, right => by
      cases right <;> simp [Expr.same, and_assoc]
  | .variableTerm reference _, right => by
      cases right <;> simp [Expr.same, reference.same_iff_eq]
  | .symbolAttribute _ _ _ _, right => by
      cases right <;> simp [Expr.same, and_assoc]
  | .variableAttribute _ reference _ _, right => by
      cases right <;> simp [Expr.same, reference.same_iff_eq, and_assoc]
  | .string term _ _, right => by
      cases right <;> simp [Expr.same, term.same_iff_eq, and_assoc]
  | .unresolved fragments _, right => by
      cases right <;> simp [Expr.same, sameEach_iff_eq fragments]
  | .resolved root _ _ _, right => by
      cases right <;> simp [Expr.same, root.same_iff_eq, and_assoc]
  | .unary _ operand _ _ _, right => by
      cases right <;> simp [Expr.same, operand.same_iff_eq, and_assoc]
  | .binary _ left right _ _ _, other => by
      cases other <;> simp [Expr.same, left.same_iff_eq, right.same_iff_eq, and_assoc]

theorem VariableSymbol.same_iff_eq :
    ∀ left right : VariableSymbol, left.same right ↔ left = right
  | ⟨name, subscript, _⟩, ⟨_, _, _⟩ => by
      simp [VariableSymbol.same, name.same_iff_eq, sameEach_iff_eq subscript, and_assoc]

theorem VariableName.same_iff_eq : ∀ left right : VariableName, left.same right ↔ left = right
  | .basic _, right => by
      cases right <;> simp [VariableName.same]
  | .created chain, right => by
      cases right <;> simp [VariableName.same, sameChain_iff_eq chain]

theorem StringTerm.same_iff_eq : ∀ left right : StringTerm, left.same right ↔ left = right
  | ⟨duplication, chain, selection⟩, ⟨_, _, _⟩ => by
      simp [StringTerm.same, sameOption_iff_eq duplication, sameChain_iff_eq chain,
        selection.same_iff_eq, and_assoc]

theorem Selection.same_iff_eq : ∀ left right : Selection, left.same right ↔ left = right
  | ⟨start, count, _⟩, ⟨_, _, _⟩ => by
      simp [Selection.same, sameOption_iff_eq start, sameOption_iff_eq count, and_assoc]

theorem ChainItem.same_iff_eq : ∀ left right : ChainItem, left.same right ↔ left = right
  | .text _, right => by
      cases right <;> simp [ChainItem.same]
  | .variableItem reference, right => by
      cases right <;> simp [ChainItem.same, reference.same_iff_eq]
  | .dot, right => by
      cases right <;> simp [ChainItem.same]
  | .equals, right => by
      cases right <;> simp [ChainItem.same]
  | .sublist members, right => by
      cases right <;> simp [ChainItem.same, sameMembers_iff_eq members]

theorem sameEach_iff_eq : ∀ left right : List Expr, sameEach left right ↔ left = right
  | [], right => by
      cases right <;> simp [sameEach]
  | expr :: rest, right => by
      cases right <;> simp [sameEach, expr.same_iff_eq, sameEach_iff_eq rest]

theorem sameOption_iff_eq : ∀ left right : Option Expr, sameOption left right ↔ left = right
  | none, right => by
      cases right <;> simp [sameOption]
  | some expr, right => by
      cases right <;> simp [sameOption, expr.same_iff_eq]

theorem sameChain_iff_eq : ∀ left right : List ChainItem, sameChain left right ↔ left = right
  | [], right => by
      cases right <;> simp [sameChain]
  | item :: rest, right => by
      cases right <;> simp [sameChain, item.same_iff_eq, sameChain_iff_eq rest]

theorem sameMembers_iff_eq :
    ∀ left right : List (List ChainItem), sameMembers left right ↔ left = right
  | [], right => by
      cases right <;> simp [sameMembers]
  | chain :: rest, right => by
      cases right <;> simp [sameMembers, sameChain_iff_eq chain, sameMembers_iff_eq rest]

end

/-- Equality of expressions is decided by comparing them part by part. -/
instance : DecidableEq Expr :=
  fun left right => decidable_of_iff _ (Expr.same_iff_eq left right)

end ConditionalAssembly
