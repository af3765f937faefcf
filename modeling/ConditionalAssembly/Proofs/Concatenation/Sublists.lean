import Mathlib.Logic.Relation
import ConditionalAssembly.Context

/-!
# Sublists of a chain

The text of a chain is put together from left to right, so a chain may be cut
anywhere: its front is evaluated first, and what is behind follows.  A sublist
contributes the texts of its members one behind the other, and so it may be
opened, which puts the pieces of its members in its place.  Sublists stand in
sublists, in the names of variables, and in the strings of subscripts; opened
wherever they stand they leave the text as it is, and what is reported.
-/

namespace ConditionalAssembly

/-! ## Opening a sublist -/

mutual

/-- One sublist inside an expression is opened. -/
inductive Expr.Opens : Expr → Expr → Prop where
  | variableTerm {reference other : VariableSymbol} {domain : Option Domain} :
      VariableSymbol.Opens reference other →
      Expr.Opens (.variableTerm reference domain) (.variableTerm other domain)
  | variableAttribute {kind : Attribute} {reference other : VariableSymbol} {range : Range}
      {domain : Option Domain} :
      VariableSymbol.Opens reference other →
      Expr.Opens (.variableAttribute kind reference range domain)
        (.variableAttribute kind other range domain)
  | string {term other : StringTerm} {range : Range} {domain : Option Domain} :
      StringTerm.Opens term other →
      Expr.Opens (.string term range domain) (.string other range domain)
  | unresolved {fragments others : List Expr} {range : Range} :
      EachOpens fragments others →
      Expr.Opens (.unresolved fragments range) (.unresolved others range)
  | resolved {root other : Expr} {recovered : Bool} {range : Range} {domain : Domain} :
      Expr.Opens root other →
      Expr.Opens (.resolved root recovered range domain) (.resolved other recovered range domain)
  | unary {operator : UnaryOperator} {operand other : Expr} {range : Range}
      {domain operandDomain : Domain} :
      Expr.Opens operand other →
      Expr.Opens (.unary operator operand range domain operandDomain)
        (.unary operator other range domain operandDomain)
  | left {operator : BinaryOperator} {left other right : Expr} {range : Range}
      {domain operandDomain : Domain} :
      Expr.Opens left other →
      Expr.Opens (.binary operator left right range domain operandDomain)
        (.binary operator other right range domain operandDomain)
  | right {operator : BinaryOperator} {left right other : Expr} {range : Range}
      {domain operandDomain : Domain} :
      Expr.Opens right other →
      Expr.Opens (.binary operator left right range domain operandDomain)
        (.binary operator left other range domain operandDomain)

/-- One sublist inside a reference to a variable is opened. -/
inductive VariableSymbol.Opens : VariableSymbol → VariableSymbol → Prop where
  | name {chain other : List ChainItem} {subscript : List Expr} {range : Range} :
      ChainOpens chain other →
      VariableSymbol.Opens ⟨.created chain, subscript, range⟩ ⟨.created other, subscript, range⟩
  | subscript {name : VariableName} {subscript others : List Expr} {range : Range} :
      EachOpens subscript others →
      VariableSymbol.Opens ⟨name, subscript, range⟩ ⟨name, others, range⟩

/-- One sublist inside a quoted string is opened. -/
inductive StringTerm.Opens : StringTerm → StringTerm → Prop where
  | duplication {factor other : Expr} {chain : List ChainItem} {selection : Selection} :
      Expr.Opens factor other →
      StringTerm.Opens ⟨some factor, chain, selection⟩ ⟨some other, chain, selection⟩
  | text {duplication : Option Expr} {chain other : List ChainItem} {selection : Selection} :
      ChainOpens chain other →
      StringTerm.Opens ⟨duplication, chain, selection⟩ ⟨duplication, other, selection⟩
  | selection {duplication : Option Expr} {chain : List ChainItem} {selection other : Selection} :
      Selection.Opens selection other →
      StringTerm.Opens ⟨duplication, chain, selection⟩ ⟨duplication, chain, other⟩

/-- One sublist inside a selection is opened. -/
inductive Selection.Opens : Selection → Selection → Prop where
  | start {start other : Expr} {count : Option Expr} {toEnd : Bool} :
      Expr.Opens start other →
      Selection.Opens ⟨some start, count, toEnd⟩ ⟨some other, count, toEnd⟩
  | count {start : Option Expr} {count other : Expr} {toEnd : Bool} :
      Expr.Opens count other →
      Selection.Opens ⟨start, some count, toEnd⟩ ⟨start, some other, toEnd⟩

/-- One sublist inside a piece of text is opened. -/
inductive ChainItem.Opens : ChainItem → ChainItem → Prop where
  | variableItem {reference other : VariableSymbol} :
      VariableSymbol.Opens reference other →
      ChainItem.Opens (.variableItem reference) (.variableItem other)
  | sublist {members others : List (List ChainItem)} :
      MembersOpen members others → ChainItem.Opens (.sublist members) (.sublist others)

/-- One sublist in a chain is opened: the pieces of its members stand in its place. -/
inductive ChainOpens : List ChainItem → List ChainItem → Prop where
  | here (members : List (List ChainItem)) (rest : List ChainItem) :
      ChainOpens (.sublist members :: rest) (members.flatten ++ rest)
  | first {item other : ChainItem} {rest : List ChainItem} :
      ChainItem.Opens item other → ChainOpens (item :: rest) (other :: rest)
  | later {item : ChainItem} {rest others : List ChainItem} :
      ChainOpens rest others → ChainOpens (item :: rest) (item :: others)

/-- One sublist in the members of a sublist is opened. -/
inductive MembersOpen : List (List ChainItem) → List (List ChainItem) → Prop where
  | first {chain other : List ChainItem} {rest : List (List ChainItem)} :
      ChainOpens chain other → MembersOpen (chain :: rest) (other :: rest)
  | later {chain : List ChainItem} {rest others : List (List ChainItem)} :
      MembersOpen rest others → MembersOpen (chain :: rest) (chain :: others)

/-- One sublist in some expressions is opened. -/
inductive EachOpens : List Expr → List Expr → Prop where
  | first {expr other : Expr} {rest : List Expr} :
      Expr.Opens expr other → EachOpens (expr :: rest) (other :: rest)
  | later {expr : Expr} {rest others : List Expr} :
      EachOpens rest others → EachOpens (expr :: rest) (expr :: others)

end

/-! ## Chains and their pieces -/

section

variable (store : Store)

/-- The text of a chain that is put together from two is that of the first and then that of the
second, and so are the reports. -/
theorem evaluateChain_append (first second : Chain) :
    evaluateChain store (first ++ second) = do
      let text ← evaluateChain store first
      return text ++ (← evaluateChain store second) := by
  induction first with
  | nil =>
      apply Reported.ext
      · simp [evaluateChain]
      · simp [evaluateChain]
  | cons item rest ih =>
      rw [List.cons_append, evaluateChain, ih, evaluateChain]
      apply Reported.ext
      · simp [String.append_assoc]
      · simp

theorem evaluateMembers_eq (members : List Chain) :
    evaluateMembers store members = evaluateChain store members.flatten := by
  induction members with
  | nil => rfl
  | cons chain rest ih =>
      rw [evaluateMembers, List.flatten_cons, evaluateChain_append, ih]

end

/-! ## Evaluation after a sublist was opened -/

section

variable {store : Store}

mutual

/-- Opening a sublist leaves the value of an expression as it is. -/
theorem Expr.Opens.evaluate_eq {expr other : Expr} :
    expr.Opens other → other.range = expr.range ∧ other.evaluate store = expr.evaluate store
  | .variableTerm reference => by
      obtain ⟨range, value, _⟩ := reference.evaluate_eq
      exact ⟨range, by rw [Expr.evaluate, Expr.evaluate, range, value]⟩
  | .variableAttribute reference => by
      obtain ⟨_, _, ofKind⟩ := reference.evaluate_eq
      exact ⟨rfl, by rw [Expr.evaluate, Expr.evaluate, ofKind]⟩
  | .string term => ⟨rfl, by rw [Expr.evaluate, Expr.evaluate, term.evaluate_eq]⟩
  | .unresolved _ => ⟨rfl, rfl⟩
  | .resolved root => ⟨rfl, by rw [Expr.evaluate, Expr.evaluate, root.evaluate_eq.2]⟩
  | .unary operand => by
      obtain ⟨range, value⟩ := operand.evaluate_eq
      exact ⟨rfl, by rw [Expr.evaluate, Expr.evaluate, range, value]⟩
  | .left operand | .right operand => by
      obtain ⟨range, value⟩ := operand.evaluate_eq
      exact ⟨rfl, by rw [Expr.evaluate, Expr.evaluate, range, value]⟩

theorem VariableSymbol.Opens.evaluate_eq {reference other : VariableSymbol} :
    reference.Opens other → other.range = reference.range ∧
      other.evaluate store = reference.evaluate store ∧
      ∀ kind, other.evaluateAttribute store kind = reference.evaluateAttribute store kind
  | .name chain => by
      have text := chain.evaluate_eq
      refine ⟨rfl, ?_, fun kind => ?_⟩
      · simp only [VariableSymbol.evaluate, VariableName.evaluate, text]
      · simp only [VariableSymbol.evaluateAttribute, VariableName.evaluate, text]
  | .subscript numbers => by
      have words := numbers.evaluate_eq
      refine ⟨rfl, ?_, fun kind => ?_⟩
      · simp only [VariableSymbol.evaluate, words]
      · simp only [VariableSymbol.evaluateAttribute, words]

theorem StringTerm.Opens.evaluate_eq {term other : StringTerm} {range : Range} :
    term.Opens other → other.evaluate store range = term.evaluate store range
  | .duplication factor => by
      obtain ⟨range, value⟩ := factor.evaluate_eq
      simp only [StringTerm.evaluate, range, value]
  | @StringTerm.Opens.text duplication _ _ _ chain => by
      have text := chain.evaluate_eq
      cases duplication <;> simp only [StringTerm.evaluate, text]
  | @StringTerm.Opens.selection duplication _ before after selection => by
      have part (text : String) : after.evaluate store text = before.evaluate store text :=
        selection.evaluate_eq
      cases duplication <;> simp only [StringTerm.evaluate, part]

theorem Selection.Opens.evaluate_eq {selection other : Selection} {text : String} :
    selection.Opens other → other.evaluate store text = selection.evaluate store text
  | @Selection.Opens.start _ _ count _ start => by
      obtain ⟨range, value⟩ := start.evaluate_eq
      cases count <;> simp only [Selection.evaluate, range, value]
  | @Selection.Opens.count start _ _ _ count => by
      obtain ⟨range, value⟩ := count.evaluate_eq
      cases start <;> simp only [Selection.evaluate, range, value]

theorem ChainItem.Opens.evaluate_eq {item other : ChainItem} :
    item.Opens other → other.evaluate store = item.evaluate store
  | .variableItem reference => by
      obtain ⟨range, value, _⟩ := reference.evaluate_eq
      rw [ChainItem.evaluate, ChainItem.evaluate, range, value]
  | .sublist members => by
      rw [ChainItem.evaluate, ChainItem.evaluate, members.evaluate_eq]

theorem ChainOpens.evaluate_eq {chain other : List ChainItem} :
    ChainOpens chain other → evaluateChain store other = evaluateChain store chain
  | .here members rest => by
      rw [evaluateChain_append, evaluateChain, ChainItem.evaluate, evaluateMembers_eq]
  | .first item => by rw [evaluateChain, evaluateChain, item.evaluate_eq]
  | .later rest => by rw [evaluateChain, evaluateChain, rest.evaluate_eq]

theorem MembersOpen.evaluate_eq {members others : List (List ChainItem)} :
    MembersOpen members others → evaluateMembers store others = evaluateMembers store members
  | .first chain => by rw [evaluateMembers, evaluateMembers, chain.evaluate_eq]
  | .later rest => by rw [evaluateMembers, evaluateMembers, rest.evaluate_eq]

theorem EachOpens.evaluate_eq {exprs others : List Expr} :
    EachOpens exprs others → evaluateWords store others = evaluateWords store exprs
  | .first expr => by
      obtain ⟨range, value⟩ := expr.evaluate_eq
      rw [evaluateWords, evaluateWords, range, value]
  | .later rest => by rw [evaluateWords, evaluateWords, rest.evaluate_eq]

end

end

/-! ## Counting sublists -/

mutual

/-- The number of sublists inside an expression. -/
def Expr.sublists : Expr → Nat
  | .constant _ _ _ | .symbol _ _ _ | .symbolAttribute _ _ _ _ => 0
  | .variableTerm reference _ | .variableAttribute _ reference _ _ => reference.sublists
  | .string term _ _ => term.sublists
  | .unresolved fragments _ => sublistsOfEach fragments
  | .resolved root _ _ _ => root.sublists
  | .unary _ operand _ _ _ => operand.sublists
  | .binary _ left right _ _ _ => left.sublists + right.sublists

/-- The number of sublists inside a reference to a variable. -/
def VariableSymbol.sublists : VariableSymbol → Nat
  | ⟨name, subscript, _⟩ => name.sublists + sublistsOfEach subscript

/-- The number of sublists inside the name of a variable. -/
def VariableName.sublists : VariableName → Nat
  | .basic _ => 0
  | .created chain => sublistsOfChain chain

/-- The number of sublists inside a quoted string. -/
def StringTerm.sublists : StringTerm → Nat
  | ⟨duplication, chain, selection⟩ =>
      sublistsOfOption duplication + sublistsOfChain chain + selection.sublists

/-- The number of sublists inside a selection. -/
def Selection.sublists : Selection → Nat
  | ⟨start, count, _⟩ => sublistsOfOption start + sublistsOfOption count

/-- The number of sublists that a piece of text is and holds. -/
def ChainItem.sublists : ChainItem → Nat
  | .text _ | .dot | .equals => 0
  | .variableItem reference => reference.sublists
  | .sublist members => sublistsOfMembers members + 1

/-- The number of sublists inside an expression that may be missing. -/
def sublistsOfOption : Option Expr → Nat
  | none => 0
  | some expr => expr.sublists

/-- The number of sublists in a chain, at any depth. -/
def sublistsOfChain : List ChainItem → Nat
  | [] => 0
  | item :: rest => item.sublists + sublistsOfChain rest

/-- The number of sublists in the members of a sublist. -/
def sublistsOfMembers : List (List ChainItem) → Nat
  | [] => 0
  | chain :: rest => sublistsOfChain chain + sublistsOfMembers rest

/-- The number of sublists inside some expressions. -/
def sublistsOfEach : List Expr → Nat
  | [] => 0
  | expr :: rest => expr.sublists + sublistsOfEach rest

end

theorem sublistsOfChain_append (first second : Chain) :
    sublistsOfChain (first ++ second) = sublistsOfChain first + sublistsOfChain second := by
  induction first with
  | nil => simp [sublistsOfChain]
  | cons item rest ih => simp [sublistsOfChain, ih, Nat.add_assoc]

theorem sublistsOfMembers_eq (members : List Chain) :
    sublistsOfMembers members = sublistsOfChain members.flatten := by
  induction members with
  | nil => rfl
  | cons chain rest ih =>
      rw [sublistsOfMembers, List.flatten_cons, sublistsOfChain_append, ih]

mutual

/-- Opening a sublist leaves one sublist less. -/
theorem Expr.Opens.sublists_eq {expr other : Expr} :
    expr.Opens other → expr.sublists = other.sublists + 1
  | .variableTerm reference | .variableAttribute reference => reference.sublists_eq
  | .string term => term.sublists_eq
  | .unresolved fragments => fragments.sublists_eq
  | .resolved operand | .unary operand => operand.sublists_eq
  | .left operand | .right operand => by
      have one := operand.sublists_eq
      simp only [Expr.sublists]
      omega

theorem VariableSymbol.Opens.sublists_eq {reference other : VariableSymbol} :
    reference.Opens other → reference.sublists = other.sublists + 1
  | .name chain => by
      have one := chain.sublists_eq
      simp only [VariableSymbol.sublists, VariableName.sublists]
      omega
  | .subscript numbers => by
      have one := numbers.sublists_eq
      simp only [VariableSymbol.sublists]
      omega

theorem StringTerm.Opens.sublists_eq {term other : StringTerm} :
    term.Opens other → term.sublists = other.sublists + 1
  | .duplication factor => by
      have one := factor.sublists_eq
      simp only [StringTerm.sublists, sublistsOfOption]
      omega
  | .text chain => by
      have one := chain.sublists_eq
      simp only [StringTerm.sublists]
      omega
  | .selection part => by
      have one := part.sublists_eq
      simp only [StringTerm.sublists]
      omega

theorem Selection.Opens.sublists_eq {selection other : Selection} :
    selection.Opens other → selection.sublists = other.sublists + 1
  | .start number | .count number => by
      have one := number.sublists_eq
      simp only [Selection.sublists, sublistsOfOption]
      omega

theorem ChainItem.Opens.sublists_eq {item other : ChainItem} :
    item.Opens other → item.sublists = other.sublists + 1
  | .variableItem reference => reference.sublists_eq
  | .sublist members => congrArg (· + 1) members.sublists_eq

theorem ChainOpens.sublists_eq {chain other : List ChainItem} :
    ChainOpens chain other → sublistsOfChain chain = sublistsOfChain other + 1
  | .here members rest => by
      rw [sublistsOfChain, ChainItem.sublists, sublistsOfChain_append, sublistsOfMembers_eq]
      omega
  | .first item => by
      have one := item.sublists_eq
      simp only [sublistsOfChain]
      omega
  | .later rest => by
      have one := rest.sublists_eq
      simp only [sublistsOfChain]
      omega

theorem MembersOpen.sublists_eq {members others : List (List ChainItem)} :
    MembersOpen members others → sublistsOfMembers members = sublistsOfMembers others + 1
  | .first chain => by
      have one := chain.sublists_eq
      simp only [sublistsOfMembers]
      omega
  | .later rest => by
      have one := rest.sublists_eq
      simp only [sublistsOfMembers]
      omega

theorem EachOpens.sublists_eq {exprs others : List Expr} :
    EachOpens exprs others → sublistsOfEach exprs = sublistsOfEach others + 1
  | .first expr => by
      have one := expr.sublists_eq
      simp only [sublistsOfEach]
      omega
  | .later rest => by
      have one := rest.sublists_eq
      simp only [sublistsOfEach]
      omega

end

mutual

/-- Where there is a sublist, one can be opened. -/
theorem Expr.exists_opens : ∀ expr : Expr, 0 < expr.sublists → ∃ other, expr.Opens other
  | .constant _ _ _, held | .symbol _ _ _, held | .symbolAttribute _ _ _ _, held =>
      absurd held (Nat.lt_irrefl 0)
  | .variableTerm reference _, held => by
      obtain ⟨other, opens⟩ := reference.exists_opens held
      exact ⟨_, .variableTerm opens⟩
  | .variableAttribute _ reference _ _, held => by
      obtain ⟨other, opens⟩ := reference.exists_opens held
      exact ⟨_, .variableAttribute opens⟩
  | .string term _ _, held => by
      obtain ⟨other, opens⟩ := term.exists_opens held
      exact ⟨_, .string opens⟩
  | .unresolved fragments _, held => by
      obtain ⟨others, opens⟩ := exists_eachOpens fragments held
      exact ⟨_, .unresolved opens⟩
  | .resolved root _ _ _, held => by
      obtain ⟨other, opens⟩ := root.exists_opens held
      exact ⟨_, .resolved opens⟩
  | .unary _ operand _ _ _, held => by
      obtain ⟨other, opens⟩ := operand.exists_opens held
      exact ⟨_, .unary opens⟩
  | .binary _ left right _ _ _, held => by
      rcases Nat.add_pos_iff_pos_or_pos.mp held with inLeft | inRight
      · obtain ⟨other, opens⟩ := left.exists_opens inLeft
        exact ⟨_, .left opens⟩
      · obtain ⟨other, opens⟩ := right.exists_opens inRight
        exact ⟨_, .right opens⟩

theorem VariableSymbol.exists_opens :
    ∀ reference : VariableSymbol, 0 < reference.sublists → ∃ other, reference.Opens other
  | ⟨.basic _, subscript, _⟩, held => by
      obtain ⟨others, opens⟩ := exists_eachOpens subscript (by
        simpa [VariableSymbol.sublists, VariableName.sublists] using held)
      exact ⟨_, .subscript opens⟩
  | ⟨.created chain, subscript, _⟩, held => by
      rcases Nat.add_pos_iff_pos_or_pos.mp held with inName | inSubscript
      · obtain ⟨other, opens⟩ := exists_chainOpens chain inName
        exact ⟨_, .name opens⟩
      · obtain ⟨others, opens⟩ := exists_eachOpens subscript inSubscript
        exact ⟨_, .subscript opens⟩

theorem StringTerm.exists_opens :
    ∀ term : StringTerm, 0 < term.sublists → ∃ other, term.Opens other
  | ⟨duplication, chain, selection⟩, held => by
      rcases Nat.add_pos_iff_pos_or_pos.mp held with inFront | inSelection
      · rcases Nat.add_pos_iff_pos_or_pos.mp inFront with inFactor | inChain
        · obtain ⟨factor, other, rfl, opens⟩ := exists_optionOpens duplication inFactor
          exact ⟨_, .duplication opens⟩
        · obtain ⟨other, opens⟩ := exists_chainOpens chain inChain
          exact ⟨_, .text opens⟩
      · obtain ⟨other, opens⟩ := selection.exists_opens inSelection
        exact ⟨_, .selection opens⟩

theorem Selection.exists_opens :
    ∀ selection : Selection, 0 < selection.sublists → ∃ other, selection.Opens other
  | ⟨start, count, _⟩, held => by
      rcases Nat.add_pos_iff_pos_or_pos.mp held with inStart | inCount
      · obtain ⟨number, other, rfl, opens⟩ := exists_optionOpens start inStart
        exact ⟨_, .start opens⟩
      · obtain ⟨number, other, rfl, opens⟩ := exists_optionOpens count inCount
        exact ⟨_, .count opens⟩

theorem exists_optionOpens :
    ∀ expr : Option Expr, 0 < sublistsOfOption expr →
      ∃ number other, expr = some number ∧ number.Opens other
  | none, held => absurd held (Nat.lt_irrefl 0)
  | some number, held => by
      obtain ⟨other, opens⟩ := number.exists_opens held
      exact ⟨number, other, rfl, opens⟩

theorem exists_chainOpens :
    ∀ chain : List ChainItem, 0 < sublistsOfChain chain → ∃ other, ChainOpens chain other
  | [], held => absurd held (Nat.lt_irrefl 0)
  | .sublist members :: rest, _ => ⟨_, .here members rest⟩
  | .variableItem reference :: rest, held => by
      rcases Nat.add_pos_iff_pos_or_pos.mp held with inFirst | inRest
      · obtain ⟨other, opens⟩ := reference.exists_opens inFirst
        exact ⟨_, .first (.variableItem opens)⟩
      · obtain ⟨others, opens⟩ := exists_chainOpens rest inRest
        exact ⟨_, .later opens⟩
  | .text _ :: rest, held | .dot :: rest, held | .equals :: rest, held => by
      obtain ⟨others, opens⟩ := exists_chainOpens rest (by
        simpa [sublistsOfChain, ChainItem.sublists] using held)
      exact ⟨_, .later opens⟩

theorem exists_eachOpens :
    ∀ exprs : List Expr, 0 < sublistsOfEach exprs → ∃ others, EachOpens exprs others
  | [], held => absurd held (Nat.lt_irrefl 0)
  | expr :: rest, held => by
      rcases Nat.add_pos_iff_pos_or_pos.mp held with inFirst | inRest
      · obtain ⟨other, opens⟩ := expr.exists_opens inFirst
        exact ⟨_, .first opens⟩
      · obtain ⟨others, opens⟩ := exists_eachOpens rest inRest
        exact ⟨_, .later opens⟩

end

/-! ## Opening all sublists -/

/-- Chains that are made from one another by opening sublists. -/
def Unfolds : Chain → Chain → Prop :=
  Relation.ReflTransGen ChainOpens

theorem Unfolds.evaluate_eq {chain other : Chain} (unfolds : Unfolds chain other)
    (store : Store) : evaluateChain store other = evaluateChain store chain := by
  induction unfolds with
  | refl => rfl
  | tail _ opens ih => rw [opens.evaluate_eq, ih]

/-- The sublists of a chain can be opened one by one until there are none. -/
theorem exists_unfolds (chain : Chain) :
    ∃ plain, Unfolds chain plain ∧ sublistsOfChain plain = 0 := by
  -- By induction on the number of sublists, since each step leaves one less.
  induction size : sublistsOfChain chain generalizing chain with
  | zero => exact ⟨chain, .refl, size⟩
  | succ number ih =>
      obtain ⟨other, opens⟩ := exists_chainOpens chain (by omega)
      have one := opens.sublists_eq
      obtain ⟨plain, unfolds, none⟩ := ih other (by omega)
      exact ⟨plain, .head opens unfolds, none⟩

/-- The text of a chain against a context. -/
def Context.evaluateChain (context : Context) (chain : Chain) : String × Context :=
  context.record (ConditionalAssembly.evaluateChain context.store chain)

/-- Chains are evaluated piece by piece: what is put together from two chains is evaluated by
evaluating the first and then, on the context that it leaves, the second.  Sublists can be opened
wherever they stand: each that is opened leaves one less, until none is left, and all the while the
text is the same, and so is the context that is left. -/
theorem evaluateChain_compositional (context : Context) :
    (∀ first second : Chain,
      let front := context.evaluateChain first
      let back := front.2.evaluateChain second
      context.evaluateChain (first ++ second) = (front.1 ++ back.1, back.2)) ∧
    ∀ chain : Chain,
      (∀ other, Unfolds chain other → context.evaluateChain other = context.evaluateChain chain) ∧
      (∀ other, ChainOpens chain other → sublistsOfChain chain = sublistsOfChain other + 1) ∧
      ((∀ other, ¬ ChainOpens chain other) ↔ sublistsOfChain chain = 0) ∧
      ∃ plain, Unfolds chain plain ∧ sublistsOfChain plain = 0 := by
  constructor
  · intro first second
    simp [Context.evaluateChain, Context.record, evaluateChain_append]
  · intro chain
    refine ⟨fun other unfolds => ?_, fun other opens => opens.sublists_eq, ⟨fun closed => ?_, ?_⟩,
      exists_unfolds chain⟩
    · rw [Context.evaluateChain, Context.evaluateChain, unfolds.evaluate_eq]
    · apply Nat.eq_zero_of_not_pos
      intro held
      obtain ⟨other, opens⟩ := exists_chainOpens chain held
      exact closed other opens
    · intro none other opens
      have one := opens.sublists_eq
      omega

end ConditionalAssembly
