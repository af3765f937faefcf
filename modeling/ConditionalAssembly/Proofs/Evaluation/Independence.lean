import Mathlib
import ConditionalAssembly.Context
import ConditionalAssembly.Proofs.Resolution.Dependencies

/-!
# Symbols that do not matter

An expression can depend on an ordinary symbol in two ways: it asks for an
attribute of the symbol, or it asks for the value and reports that there is
none.  A symbol that is neither collected nor reported may be defined without
any effect.  Only attributes of variables, which may describe a symbol that the
value of a variable names, have to be left out.
-/

namespace ConditionalAssembly

/-- The answer to a query has nothing to do with a symbol that is not defined. -/
def Query.Ignores (name : String) : Query → Prop
  | .ofSymbol kind other => other = name → kind.requiresDefinedSymbol = false
  | .ofVariable kind _ => kind = .count ∨ kind = .number

/-- None of the attributes in some nodes has to do with a symbol. -/
def AllIgnore (name : String) (nodes : List Expr) : Prop :=
  ∀ query ∈ queries nodes, query.Ignores name

theorem allIgnore_cons {name : String} {node : Expr} {rest : List Expr} :
    AllIgnore name (node :: rest) ↔
      (∀ query, node.query? = some query → query.Ignores name) ∧ AllIgnore name rest := by
  simp only [AllIgnore, mem_queries_cons, or_imp, forall_and]

theorem allIgnore_append {name : String} {first second : List Expr} :
    AllIgnore name (first ++ second) ↔ AllIgnore name first ∧ AllIgnore name second := by
  rw [AllIgnore, queries, List.filterMap_append]
  exact List.forall_mem_append

/-! ## Results that do not change -/

namespace Reported

variable {α β : Type}

/-- Nothing is reported about an undefined symbol of the name. -/
def Silent (name : String) (reported : Reported α) : Prop :=
  ∀ diagnostic ∈ reported.diagnostics, diagnostic.problem ≠ .undefinedSymbol name

/-- The later result is the earlier one, unless that one reports the symbol as undefined. -/
def Persists (name : String) (earlier later : Reported α) : Prop :=
  earlier.Silent name → later = earlier

theorem persists_refl (name : String) (reported : Reported α) : Persists name reported reported :=
  fun _ => rfl

/-- Steps that persist may be chained. -/
theorem Persists.bind {name : String} {earlier later : Reported α}
    {earlierNext laterNext : α → Reported β} (first : Persists name earlier later)
    (second : ∀ value, Persists name (earlierNext value) (laterNext value)) :
    Persists name (earlier >>= earlierNext) (later >>= laterNext) := by
  intro silent
  have same := first fun diagnostic found => silent diagnostic (List.mem_append_left _ found)
  have sameNext := second earlier.value fun diagnostic found =>
    silent diagnostic (List.mem_append_right _ found)
  apply Reported.ext
  · rw [value_bind, value_bind, same, sameNext]
  · rw [diagnostics_bind, diagnostics_bind, same, sameNext]

theorem Persists.map {name : String} {earlier later : Reported α}
    (persists : Persists name earlier later) (f : α → β) :
    Persists name (f <$> earlier) (f <$> later) := by
  intro silent
  rw [persists fun diagnostic found => silent diagnostic (by rwa [diagnostics_map])]

end Reported

namespace Evaluation

open Reported

theorem persists_settle {name : String} (domain : Option Domain) (range : Range)
    {earlier later : Reported (Except Problem Value)} (persists : Persists name earlier later) :
    Persists name (settle domain range earlier) (settle domain range later) := by
  cases domain with
  | none => exact persists_refl name _
  | some domain => exact persists.bind fun _ => persists_refl name _

theorem persists_number {name : String} (range : Range) {earlier later : Reported Value}
    (persists : Persists name earlier later) :
    Persists name (number range earlier) (number range later) :=
  persists.bind fun _ => persists_refl name _

end Evaluation

/-! ## Stores with one more symbol -/

/-- The stores hold the same, except that the earlier one lacks a symbol. -/
structure Store.AgreesExcept (name : String) (earlier later : Store) : Prop where
  missing : earlier.symbolTable[name]? = none
  value? (asked : String) (subscript : List Int32) :
    later.value? asked subscript = earlier.value? asked subscript
  count? (asked : String) : later.count? asked = earlier.count? asked
  symbols {other : String} (different : name ≠ other) :
    later.symbolTable[other]? = earlier.symbolTable[other]?

/-- Defining a symbol that was not defined changes nothing else. -/
theorem Store.agreesExcept_defineSymbol {store : Store} {name : String}
    (undefined : store.defines name = false) (symbol : OrdinarySymbol) :
    store.AgreesExcept name (store.defineSymbol name symbol) where
  missing := by simpa [Store.defines, ← Std.TreeMap.isSome_getElem?_eq_contains] using undefined
  value? _ _ := rfl
  count? _ := rfl
  symbols different := by simp [Store.defineSymbol, Std.TreeMap.getElem?_insert, different]

namespace Store.AgreesExcept

open Reported Evaluation

variable {name : String} {earlier later : Store} (agrees : earlier.AgreesExcept name later)

include agrees

theorem variableValue_eq (asked : String) (subscript : List Int32) :
    variableValue later asked subscript = variableValue earlier asked subscript := by
  rw [variableValue, variableValue, agrees.value?]

/-- A symbol other than the missing one has its value, and of the missing one
it is reported that it has none. -/
theorem persists_symbol (other : String) (domain : Option Domain) (range : Range) :
    Persists name (settle domain range (pure (symbol earlier other)))
      (settle domain range (pure (symbol later other))) := by
  by_cases same : name = other
  · cases same
    have undefined : symbol earlier name = .error (.undefinedSymbol name) := by
      rw [symbol, Store.symbol?, agrees.missing, Option.map_none]
    cases domain with
    | none => exact persists_refl name _
    | some domain =>
        intro silent
        rw [undefined] at silent
        exact absurd rfl (silent ⟨.undefinedSymbol name, range⟩ (List.mem_singleton_self _))
  · rw [symbol, symbol, Store.symbol?, Store.symbol?, agrees.symbols same]
    exact persists_refl name _

theorem symbolAttribute_eq {kind : Attribute} {other : String}
    (ignores : (Query.ofSymbol kind other).Ignores name) :
    Evaluation.symbolAttribute later kind other =
      Evaluation.symbolAttribute earlier kind other := by
  by_cases same : other = name
  · have notAllowed : kind.ordinaryAllowed = false := ignores same
    simp [Evaluation.symbolAttribute, notAllowed]
  · have symbols := agrees.symbols (Ne.symm same)
    simp [Evaluation.symbolAttribute, Store.symbolAttribute, Store.symbolAttribute?, symbols]

end Store.AgreesExcept

/-! ## Expressions -/

open Reported Evaluation

variable {name : String} {earlier later : Store}

mutual

/-- A missing symbol, when it is defined, does not change the value of an expression that
asks for no attribute of it, nor what is reported, unless it was reported as missing. -/
theorem Expr.persists_evaluate (agrees : earlier.AgreesExcept name later) :
    ∀ expr : Expr, AllIgnore name (expr.nodes true) →
      Persists name (expr.evaluate earlier) (expr.evaluate later)
  | .constant _ _ _, _ | .unresolved _ _, _ => persists_refl name _
  | .symbol other range domain, _ => by
      rw [Expr.evaluate, Expr.evaluate]
      exact agrees.persists_symbol other domain range
  | .variableTerm reference domain, ignores => by
      have inner := reference.persists_evaluate agrees (allIgnore_cons.mp ignores).2
      rw [Expr.evaluate, Expr.evaluate]
      exact persists_settle domain _ inner
  | .symbolAttribute kind other range domain, ignores => by
      have own := (allIgnore_cons.mp ignores).1 _ rfl
      rw [Expr.evaluate, Expr.evaluate, agrees.symbolAttribute_eq own]
      exact persists_refl name _
  | .variableAttribute kind reference range domain, ignores => by
      rcases allIgnore_cons.mp ignores with ⟨own, inParts⟩
      have inner := reference.persists_evaluateAttribute agrees inParts (own _ rfl)
      rw [Expr.evaluate, Expr.evaluate]
      exact persists_settle domain range inner
  | .string term range domain, ignores => by
      have inner := term.persists_evaluate agrees range (allIgnore_cons.mp ignores).2
      rw [Expr.evaluate, Expr.evaluate]
      exact persists_settle domain range (inner.map _)
  | .resolved root recovered range domain, ignores => by
      have inner := root.persists_evaluate agrees (allIgnore_cons.mp ignores).2
      rw [Expr.evaluate, Expr.evaluate]
      apply persists_settle
      cases recovered with
      | true => exact persists_refl name _
      | false => exact inner.map _
  | .unary operator operand range domain operandDomain, ignores => by
      have inner := operand.persists_evaluate agrees (allIgnore_cons.mp ignores).2
      rw [Expr.evaluate, Expr.evaluate]
      exact persists_settle _ _ (inner.bind fun _ => persists_refl name _)
  | .binary operator left right range domain operandDomain, ignores => by
      rcases allIgnore_append.mp (allIgnore_cons.mp ignores).2 with ⟨inLeft, inRight⟩
      have first := left.persists_evaluate agrees inLeft
      have second := right.persists_evaluate agrees inRight
      rw [Expr.evaluate, Expr.evaluate]
      apply persists_settle
      apply first.bind
      intro leftValue
      apply (persists_refl name _).bind
      intro conformed
      exact second.bind fun _ => persists_refl name _

theorem VariableSymbol.persists_evaluate (agrees : earlier.AgreesExcept name later) :
    ∀ reference : VariableSymbol, AllIgnore name (reference.nodes true) →
      Persists name (reference.evaluate earlier) (reference.evaluate later)
  | ⟨variableName, subscript, _⟩, ignores => by
      rcases allIgnore_append.mp ignores with ⟨inName, inSubscript⟩
      have indices := persists_evaluateWords agrees subscript inSubscript
      simp only [VariableSymbol.evaluate, agrees.variableValue_eq]
      apply (variableName.persists_evaluate agrees inName).bind
      intro text
      exact indices.bind fun _ => persists_refl name _

theorem VariableSymbol.persists_evaluateAttribute (agrees : earlier.AgreesExcept name later)
    {kind : Attribute} :
    ∀ reference : VariableSymbol, AllIgnore name (reference.nodes true) →
      kind = .count ∨ kind = .number →
      Persists name (reference.evaluateAttribute earlier kind)
        (reference.evaluateAttribute later kind)
  | ⟨variableName, subscript, _⟩, ignores, counted => by
      rcases allIgnore_append.mp ignores with ⟨inName, inSubscript⟩
      have indices := persists_evaluateWords agrees subscript inSubscript
      simp only [VariableSymbol.evaluateAttribute, agrees.variableValue_eq, agrees.count?]
      apply (variableName.persists_evaluate agrees inName).bind
      intro text
      rcases counted with rfl | rfl
      · exact indices.bind fun _ => persists_refl name _
      · exact persists_refl name _

theorem VariableName.persists_evaluate (agrees : earlier.AgreesExcept name later) :
    ∀ variableName : VariableName, AllIgnore name (variableName.nodes true) →
      Persists name (variableName.evaluate earlier) (variableName.evaluate later)
  | .basic _, _ => persists_refl name _
  | .created chain, ignores => by
      rw [VariableName.evaluate, VariableName.evaluate]
      exact (persists_evaluateChain agrees chain ignores).map _

theorem StringTerm.persists_evaluate (agrees : earlier.AgreesExcept name later) (range : Range) :
    ∀ term : StringTerm, AllIgnore name (term.nodes true) →
      Persists name (term.evaluate earlier range) (term.evaluate later range)
  | ⟨none, chain, selection⟩, ignores => by
      rcases allIgnore_append.mp ignores with ⟨inText, inSelection⟩
      have pieces := persists_evaluateChain agrees chain (allIgnore_append.mp inText).2
      rw [StringTerm.evaluate, StringTerm.evaluate]
      exact pieces.bind fun text => selection.persists_evaluate agrees text inSelection
  | ⟨some factor, chain, selection⟩, ignores => by
      rcases allIgnore_append.mp ignores with ⟨inText, inSelection⟩
      rcases allIgnore_append.mp inText with ⟨inFactor, inChain⟩
      have copies := persists_number factor.range (factor.persists_evaluate agrees inFactor)
      rw [StringTerm.evaluate, StringTerm.evaluate]
      apply (persists_evaluateChain agrees chain inChain).bind
      intro text
      apply (selection.persists_evaluate agrees text inSelection).bind
      intro selected
      cases selected with
      | error problem => exact persists_refl name _
      | ok selected => exact copies.bind fun _ => persists_refl name _

theorem Selection.persists_evaluate (agrees : earlier.AgreesExcept name later) (text : String) :
    ∀ selection : Selection, AllIgnore name (selection.nodes true) →
      Persists name (selection.evaluate earlier text) (selection.evaluate later text)
  | ⟨none, _, _⟩, _ => persists_refl name _
  | ⟨some start, none, _⟩, ignores => by
      have inStart := start.persists_evaluate agrees (allIgnore_append.mp ignores).1
      rw [Selection.evaluate, Selection.evaluate]
      exact (persists_number start.range inStart).bind fun _ => persists_refl name _
  | ⟨some start, some count, toEnd⟩, ignores => by
      rcases allIgnore_append.mp ignores with ⟨inStart, inCount⟩
      have counted := persists_number count.range (count.persists_evaluate agrees inCount)
      rw [Selection.evaluate, Selection.evaluate]
      apply (persists_number start.range (start.persists_evaluate agrees inStart)).bind
      intro first
      cases toEnd with
      | true =>
          -- Up to the end, the count is not even looked at.
          simp only [if_true]
          exact persists_refl name _
      | false =>
          simp only [Bool.false_eq_true, if_false]
          exact counted.bind fun _ => persists_refl name _

theorem ChainItem.persists_evaluate (agrees : earlier.AgreesExcept name later) :
    ∀ item : ChainItem, AllIgnore name (item.nodes true) →
      Persists name (item.evaluate earlier) (item.evaluate later)
  | .text _, _ | .dot, _ | .equals, _ => persists_refl name _
  | .variableItem reference, ignores => by
      rw [ChainItem.evaluate, ChainItem.evaluate]
      exact (reference.persists_evaluate agrees ignores).bind fun _ => persists_refl name _
  | .sublist members, ignores => by
      rw [ChainItem.evaluate, ChainItem.evaluate]
      exact persists_evaluateMembers agrees members ignores

theorem persists_evaluateChain (agrees : earlier.AgreesExcept name later) :
    ∀ chain : List ChainItem, AllIgnore name (nodesOfChain true chain) →
      Persists name (evaluateChain earlier chain) (evaluateChain later chain)
  | [], _ => persists_refl name _
  | item :: rest, ignores => by
      rcases allIgnore_append.mp ignores with ⟨inFirst, inRest⟩
      have others := persists_evaluateChain agrees rest inRest
      rw [evaluateChain, evaluateChain]
      apply (item.persists_evaluate agrees inFirst).bind
      intro text
      exact others.bind fun _ => persists_refl name _

theorem persists_evaluateMembers (agrees : earlier.AgreesExcept name later) :
    ∀ members : List (List ChainItem), AllIgnore name (nodesOfMembers true members) →
      Persists name (evaluateMembers earlier members) (evaluateMembers later members)
  | [], _ => persists_refl name _
  | chain :: rest, ignores => by
      rcases allIgnore_append.mp ignores with ⟨inFirst, inRest⟩
      have others := persists_evaluateMembers agrees rest inRest
      rw [evaluateMembers, evaluateMembers]
      apply (persists_evaluateChain agrees chain inFirst).bind
      intro text
      exact others.bind fun _ => persists_refl name _

theorem persists_evaluateWords (agrees : earlier.AgreesExcept name later) :
    ∀ exprs : List Expr, AllIgnore name (nodesOfEach true exprs) →
      Persists name (evaluateWords earlier exprs) (evaluateWords later exprs)
  | [], _ => persists_refl name _
  | expr :: rest, ignores => by
      rcases allIgnore_append.mp ignores with ⟨inFirst, inRest⟩
      have others := persists_evaluateWords agrees rest inRest
      rw [evaluateWords, evaluateWords]
      apply (persists_number expr.range (expr.persists_evaluate agrees inFirst)).bind
      intro word
      exact others.bind fun _ => persists_refl name _

end

/-! ## Defining a symbol -/

namespace Context

/-- Defines an ordinary symbol. -/
def defineSymbol (context : Context) (name : String) (symbol : OrdinarySymbol) : Context :=
  { context with store := context.store.defineSymbol name symbol }

end Context

/-- The attributes of variables in an expression count their characters or elements. -/
def Expr.CountsVariables (expr : Expr) : Prop :=
  ∀ kind reference range domain,
    .variableAttribute kind reference range domain ∈ expr.nodes true → kind = .count ∨ kind = .number

/-- A symbol that is neither defined nor collected has to do with none of the attributes. -/
theorem allIgnore_of_not_mem {expr : Expr} {context : Context} {name : String}
    (counts : expr.CountsVariables) (undefined : context.store.defines name = false)
    (notCollected : name ∉ expr.undefinedSymbols context.resolvable) :
    AllIgnore name (expr.nodes true) := by
  intro query asked
  cases query with
  | ofSymbol kind other =>
      rintro rfl
      by_contra needed
      apply notCollected
      apply Expr.mem_undefinedSymbols_iff_queries.mpr
      exact ⟨kind, asked, eq_true_of_ne_false needed, undefined⟩
  | ofVariable kind reference =>
      rcases exists_variableAttribute_of_mem_queries asked with ⟨range, domain, isNode⟩
      exact counts kind reference range domain isNode

/-- Resolution adds no attributes of variables. -/
theorem Expr.CountsVariables.resolve {expr : Expr} (counts : expr.CountsVariables)
    (untagged : AllUntagged (expr.nodes false)) (domain : Domain) :
    (expr.resolve domain).value.CountsVariables := by
  intro kind reference range tag isNode
  have surface := Expr.queries_resolveWith_subset untagged (.ofDomain domain)
  have asked := queries_subset_of_surface surface (mem_queries_of_variableAttribute isNode)
  rcases exists_variableAttribute_of_mem_queries asked with ⟨_, _, isSource⟩
  exact counts _ _ _ _ isSource

/-- A symbol that is not collected from an expression, before or after it is resolved, and that
is not reported as undefined when the tree is evaluated, may be defined in any way: value and
diagnostics stay the same. -/
theorem calculate_defineSymbol {source : String} {expr : Expr}
    (read : Expr.read source = .ok expr) (counts : expr.CountsVariables) (domain : Domain)
    (context : Context) {name : String} (undefined : context.store.defines name = false)
    (independent : name ∉ expr.undefinedSymbols context.resolvable ∨
      name ∉ (context.resolve domain expr).1.undefinedSymbols context.resolvable)
    (silent : ((context.resolve domain expr).1.evaluate context.store).Silent name)
    (symbol : OrdinarySymbol) :
    let before := context.calculate domain expr
    let after := (context.defineSymbol name symbol).calculate domain expr
    after.1 = before.1 ∧ after.2.diagnostics = before.2.diagnostics := by
  intro before after
  have untagged : AllUntagged (expr.nodes false) := (Expr.allFresh_of_read read).untagged
  have notCollected : name ∉ (expr.resolve domain).value.undefinedSymbols context.resolvable := by
    rcases independent with notBefore | notAfter
    · intro collected
      have surface := Expr.queries_resolveWith_subset untagged (.ofDomain domain)
      exact notBefore (undefinedSymbols_subset_of_surface surface collected)
    · exact notAfter
  have ignores := allIgnore_of_not_mem (counts.resolve untagged domain) undefined notCollected
  have agrees := Store.agreesExcept_defineSymbol undefined symbol
  have same : (expr.resolve domain).value.evaluate (context.store.defineSymbol name symbol) =
      (expr.resolve domain).value.evaluate context.store :=
    (expr.resolve domain).value.persists_evaluate agrees ignores silent
  constructor
  · exact congrArg Reported.value same
  · -- What was reported before, and by resolution, comes first in both.
    exact congrArg (fun result => context.diagnostics ++ (expr.resolve domain).diagnostics ++
      result.diagnostics) same

/-- What is read from `L'B+N'&X(C)`. -/
def lengthPlusElements : Expr :=
  .unresolved
    [.symbolAttribute .length "B" (.columns 0 3) none, .symbol "+" (.columns 3 4) none,
      .variableAttribute .number
        ⟨.basic "X", [.unresolved [.symbol "C" (.columns 9 10) none] (.columns 9 10)],
          .columns 6 11⟩ (.columns 4 11) none]
    (.columns 0 11)

/-- The number of elements of `&X` is the same whatever `C` is. -/
theorem calculate_defineSymbol_subscript :
    let context := Context.ofStore (Store.empty.setElement "X" 1 (.character "AB"))
    let before := context.calculate .arithmetic lengthPlusElements
    let after := (context.defineSymbol "C" ⟨5, 'A', 8, 0, 0⟩).calculate .arithmetic lengthPlusElements
    Expr.read "L'B+N'&X(C)" = .ok lengthPlusElements ∧ before.1 = .arithmetic 2 ∧
      after.1 = before.1 ∧ after.2.diagnostics = before.2.diagnostics := by
  intro context before after
  have read : Expr.read "L'B+N'&X(C)" = .ok lengthPlusElements := by cbv
  have counts : lengthPlusElements.CountsVariables := by
    intro kind reference range domain isNode
    simp [lengthPlusElements, Expr.nodes, VariableSymbol.nodes, VariableName.nodes, nodesOfEach]
      at isNode
    exact .inr isNode.1
  have undefined : context.store.defines "C" = false := by cbv
  have notCollected : "C" ∉ lengthPlusElements.undefinedSymbols context.resolvable := by
    rw [Expr.mem_undefinedSymbols_iff]
    simp [lengthPlusElements, Expr.attributeReferences, VariableSymbol.attributeReferences,
      listReferences]
  have result : (context.resolve .arithmetic lengthPlusElements).1.evaluate context.store =
      ⟨.arithmetic 2, []⟩ := by cbv
  have silent : ((context.resolve .arithmetic lengthPlusElements).1.evaluate context.store).Silent
      "C" := by
    rw [result]
    intro diagnostic found
    cases found
  constructor
  · exact read
  constructor
  · exact congrArg Reported.value result
  · exact calculate_defineSymbol read counts .arithmetic context undefined (.inl notCollected) silent
      ⟨5, 'A', 8, 0, 0⟩

end ConditionalAssembly
