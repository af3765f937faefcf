import ConditionalAssembly.Proofs.Operator.Exact
import ConditionalAssembly.Proofs.Resolution.Arithmetic

/-!
# Exact arithmetic

A tree of numbers, signs and basic operations is evaluated node by node: each
node gives the integer that its operation has for the values of its operands,
or reports an overflow and gives zero when there is no word for it.  Nothing
else is ever reported.  So as long as all results are words, the tree has the
value that it has over the integers.
-/

namespace ConditionalAssembly

/-! ## Operations on integers -/

/-- A sign in front of an integer. -/
def UnaryOperator.integer : UnaryOperator → Int → Int
  | .minus, n => -n
  | _, n => n

/-- A basic operation on integers.  Division truncates toward zero, and by zero it gives zero. -/
def BinaryOperator.integer (operator : BinaryOperator) (left right : Int) : Int :=
  match operator with
  | .add => left + right
  | .sub => left - right
  | .mul => left * right
  | .div => if right = 0 then 0 else left.tdiv right
  | _ => 0

/-- The result for a word is exactly the word. -/
theorem BinaryOperator.exact_toInt (word : Int32) : exact word.toInt = .ok word :=
  exact_eq_ok_iff.mpr rfl

theorem UnaryOperator.apply_of_isSign {operator : UnaryOperator} (isSign : operator.isSign = true)
    (word : Int32) :
    operator.apply (.arithmetic word) =
      .arithmetic <$> BinaryOperator.exact (operator.integer word.toInt) := by
  cases operator with
  | plus => simp [apply, integer, BinaryOperator.exact_toInt]
  | minus => rfl
  | _ => cases isSign

/-- A basic operation on words gives what it gives over the integers, if that is a word. -/
theorem BinaryOperator.apply_of_isBasic {operator : BinaryOperator}
    (isBasic : operator.isBasic = true) (left right : Int32) :
    operator.apply (.arithmetic left) (.arithmetic right) =
      .arithmetic <$> exact (operator.integer left.toInt right.toInt) := by
  cases operator with
  | add | sub | mul => rfl
  | div =>
      have zero : right = 0 ↔ right.toInt = 0 := Int32.toInt_inj.symm
      by_cases isZero : right.toInt = 0
      · have nothing : exact 0 = .ok 0 := exact_toInt 0
        simp [apply, scalar, integer, zero, isZero, nothing]
      · simp [apply, scalar, integer, zero, isZero]
  | _ => cases isBasic

/-! ## What a node computes -/

/-- The integer that a value denotes, zero for other values. -/
def Value.integer (value : Value) : Int :=
  (Evaluation.word value).toInt

@[simp]
theorem Value.integer_arithmetic (word : Int32) : (arithmetic word).integer = word.toInt :=
  rfl

namespace Evaluation

/-- The integer as the value of a node: the word that denotes it, or a zero that is reported. -/
def exactly (range : Range) (n : Int) : Reported Value :=
  if Word.Holds n then pure (.arithmetic (Int32.ofInt n))
  else .report .arithmeticOverflow range (.arithmetic 0)

theorem settle_exact (range : Range) (computed : Reported Int) :
    settle (some .arithmetic) range ((Value.arithmetic <$> BinaryOperator.exact ·) <$> computed) =
      computed >>= exactly range := by
  by_cases holds : Word.Holds computed.value
  · apply Reported.ext <;>
      simp [settle, exactly, BinaryOperator.exact_eq, holds, limited, conform, Value.domain]
  · apply Reported.ext <;>
      simp [settle, exactly, BinaryOperator.exact_eq, holds, Domain.default]

theorem diagnostics_exactly_eq_nil_iff {range : Range} {n : Int} :
    (exactly range n).diagnostics = [] ↔ Word.Holds n := by
  unfold exactly
  split
  next holds => simp [holds]
  next missing => simp [missing]

end Evaluation

open Evaluation

namespace Expr

/-- The integer that a node of a sum has to give, computed from the values of its operands with
what they report.  A list that stands in for others gives zero. -/
def computed (store : Store) : Expr → Reported Int
  | .constant value _ _ => return value.toInt
  | .symbol name _ _ => return ((store.symbol? name).getD 0).toInt
  | .variableTerm reference _ => do
      match ← reference.evaluate store with
      | .ok value => return value.integer
      | .error _ => return 0
  | .resolved root recovered _ _ =>
      if recovered then return 0 else Value.integer <$> root.evaluate store
  | .unary operator operand _ _ _ => do
      return operator.integer (← operand.evaluate store).integer
  | .binary operator left right _ _ _ => do
      let leftValue ← left.evaluate store
      let rightValue ← right.evaluate store
      return operator.integer leftValue.integer rightValue.integer
  | _ => return 0

/-- The integer that a sum denotes when nothing is ever rounded to a word.  The values of its
symbols and variables are those they have. -/
def integer (store : Store) : Expr → Int
  | .resolved root recovered _ _ => if recovered then 0 else root.integer store
  | .unary operator operand _ _ _ => operator.integer (operand.integer store)
  | .binary operator left right _ _ _ =>
      operator.integer (left.integer store) (right.integer store)
  | leaf => (leaf.computed store).value

end Expr

/-! ## Nodes -/

/-- What a sum refers to has a value: symbols are defined and variables hold numbers.  Variables in
created names hold anything. -/
def Part.HasValue (store : Store) : Part → Prop
  | .term (.symbol name _ _) => ∃ word, store.symbol? name = some word
  | .term (.variableTerm symbol _) => ∃ word, (symbol.evaluate store).value = .ok (.arithmetic word)
  | .reference symbol => ∃ value, (symbol.evaluate store).value = .ok value
  | .term _ => True

/-- The part may stand in a sum that is evaluated against the store. -/
structure Part.Calculates (store : Store) (part : Part) : Prop where
  arithmetic : part.IsArithmetic
  valued : part.HasValue store

namespace Expr

variable {store : Store}

/-- The expression is made of constants, of symbols and variables that have numbers in the store, of
parentheses, signs and basic operations. -/
def Calculates (store : Store) (expr : Expr) : Prop :=
  (Part.term expr).Throughout (Part.Calculates store)

namespace Calculates

theorem constant (value : Int32) (range : Range) (domain : Option Domain) :
    (constant value range domain).Calculates store :=
  Part.throughout_iff.mpr ⟨⟨trivial, trivial⟩, nofun⟩

/-- An ordinary symbol has to be defined. -/
theorem symbol {name : String} {word : Int32} (defined : store.symbol? name = some word)
    (range : Range) (domain : Option Domain) : (symbol name range domain).Calculates store :=
  Part.throughout_iff.mpr ⟨⟨trivial, word, defined⟩, nofun⟩

/-- A variable has to hold a number where its subscript points to. -/
theorem variableTerm {name : String} {subscript : List Expr} {range : Range} {word : Int32}
    (held : (VariableSymbol.evaluate store ⟨.basic name, subscript, range⟩).value =
      .ok (.arithmetic word))
    (inside : ∀ index ∈ subscript, index.Calculates store) (domain : Option Domain) :
    (variableTerm ⟨.basic name, subscript, range⟩ domain).Calculates store := by
  refine Part.throughout_iff.mpr ⟨⟨trivial, word, held⟩, List.forall_mem_singleton.mpr ?_⟩
  exact Part.throughout_iff.mpr ⟨⟨trivial, _, held⟩, List.forall_mem_map.mpr inside⟩

theorem parentheses {root : Expr} (inside : root.Calculates store) (recovered : Bool)
    (range : Range) (domain : Domain) : (resolved root recovered range domain).Calculates store :=
  Part.throughout_iff.mpr ⟨⟨trivial, trivial⟩, List.forall_mem_singleton.mpr inside⟩

theorem sign {operator : UnaryOperator} {operand : Expr} (isSign : operator.isSign = true)
    (inside : operand.Calculates store) (range : Range) (domain operandDomain : Domain) :
    (unary operator operand range domain operandDomain).Calculates store :=
  Part.throughout_iff.mpr ⟨⟨isSign, trivial⟩, List.forall_mem_singleton.mpr inside⟩

theorem basic {operator : BinaryOperator} {left right : Expr} (isBasic : operator.isBasic = true)
    (first : left.Calculates store) (second : right.Calculates store) (range : Range)
    (domain operandDomain : Domain) :
    (binary operator left right range domain operandDomain).Calculates store :=
  Part.throughout_iff.mpr ⟨⟨isBasic, trivial⟩,
    List.forall_mem_cons.mpr ⟨first, List.forall_mem_singleton.mpr second⟩⟩

end Calculates

end Expr

/-- Besides, it is marked as a number. -/
structure Part.Counts (store : Store) (part : Part) : Prop extends part.Calculates store where
  marked : part.IsMarked

namespace Expr

variable {store : Store}

theorem exists_evaluate_eq (store : Store) {expr : Expr}
    (domain : expr.domain? = some .arithmetic) :
    ∃ word diagnostics, expr.evaluate store = ⟨.arithmetic word, diagnostics⟩ := by
  have tagged : expr.domain?.getD .arithmetic = .arithmetic := by
    rw [domain]
    rfl
  obtain ⟨word, isWord⟩ := expr.exists_word store
  rw [evaluateAs_of_domain store tagged] at isWord
  exact ⟨word, (expr.evaluate store).diagnostics, Reported.ext isWord rfl⟩

/-- A term directly inside a part of a sum has a number for its value. -/
theorem exists_evaluate_eq_of_child {part : Part}
    (children : ∀ child ∈ part.children, child.Throughout (Part.Counts store)) {expr : Expr}
    (isChild : .term expr ∈ part.children) :
    ∃ word diagnostics, expr.evaluate store = ⟨.arithmetic word, diagnostics⟩ :=
  exists_evaluate_eq store (children _ isChild _ .refl).marked.domain?

/-- A node gives exactly what it computes from its operands, or reports an overflow. -/
theorem evaluate_eq_computed {expr : Expr}
    (throughout : (Part.term expr).Throughout (Part.Counts store)) :
    expr.evaluate store = expr.computed store >>= exactly expr.range := by
  obtain ⟨⟨⟨arithmetic, valued⟩, marked⟩, children⟩ := Part.throughout_iff.mp throughout
  have conforms (range : Range) (word : Int32) :
      conform .arithmetic range (.arithmetic word) = pure (.arithmetic word) :=
    conform_of_domain rfl range
  rw [← settle_exact]
  cases expr with
  | constant value range tag =>
      cases marked
      rw [evaluate, Expr.range]
      simp [computed, BinaryOperator.exact_toInt]
  | symbol name range tag =>
      cases marked
      obtain ⟨word, defined⟩ := valued
      rw [evaluate, Expr.range]
      simp [computed, Evaluation.symbol, defined, BinaryOperator.exact_toInt]
  | variableTerm reference tag =>
      cases marked
      obtain ⟨word, held⟩ := valued
      rw [evaluate, Expr.range]
      congr 1
      apply Reported.ext <;> simp [computed, held, BinaryOperator.exact_toInt]
  | resolved root recovered range tag =>
      obtain ⟨rfl, _⟩ := marked
      obtain ⟨word, found, evaluated⟩ :=
        exists_evaluate_eq_of_child children (List.mem_singleton_self _)
      rw [evaluate, Expr.range]
      congr 1
      cases recovered with
      | true =>
          have zero : BinaryOperator.exact 0 = .ok 0 := BinaryOperator.exact_toInt 0
          simp [computed, Domain.default, zero]
      | false => apply Reported.ext <;> simp [computed, evaluated, BinaryOperator.exact_toInt]
  | unary operator operand range tag operandDomain =>
      obtain ⟨rfl, rfl⟩ := marked
      obtain ⟨word, found, evaluated⟩ :=
        exists_evaluate_eq_of_child children (List.mem_singleton_self _)
      rw [evaluate, Expr.range.eq_def]
      congr 1
      apply Reported.ext <;>
        simp [computed, evaluated, conforms, UnaryOperator.apply_of_isSign arithmetic]
  | binary operator left right range tag operandDomain =>
      obtain ⟨rfl, rfl⟩ := marked
      obtain ⟨leftWord, leftFound, leftEvaluated⟩ :=
        exists_evaluate_eq_of_child children (List.mem_cons_self ..)
      obtain ⟨rightWord, rightFound, rightEvaluated⟩ :=
        exists_evaluate_eq_of_child children (List.mem_cons_of_mem _ (List.mem_singleton_self _))
      rw [evaluate, Expr.range.eq_def]
      congr 1
      apply Reported.ext <;>
        simp [computed, leftEvaluated, rightEvaluated, conforms,
          BinaryOperator.apply_of_isBasic arithmetic]
  | symbolAttribute _ _ _ _ | variableAttribute _ _ _ _ | string _ _ _ | unresolved _ _ =>
      exact arithmetic.elim

/-- What a node reports by itself: an overflow when there is no word for what it computes. -/
def overflow (store : Store) (node : Expr) : List Diagnostic :=
  (exactly node.range (node.computed store).value).diagnostics

theorem overflow_eq_nil_iff {node : Expr} :
    node.overflow store = [] ↔ Word.Holds (node.computed store).value :=
  diagnostics_exactly_eq_nil_iff

theorem perm_of_computed {expr : Expr} {inner : List Expr}
    (throughout : (Part.term expr).Throughout (Part.Counts store))
    (whole : expr.nodes true = expr :: inner)
    (inside : (expr.computed store).diagnostics.Perm (inner.flatMap (overflow store))) :
    (expr.evaluate store).diagnostics.Perm ((expr.nodes true).flatMap (overflow store)) := by
  rw [evaluate_eq_computed throughout, whole, List.flatMap_cons]
  exact (inside.append_right _).trans List.perm_append_comm

end Expr

/-! ## All that is reported -/

section

variable {store : Store}

mutual

/-- What is reported for a sum are the overflows of its nodes. -/
theorem Expr.perm_overflow :
    ∀ expr : Expr, (Part.term expr).Throughout (Part.Counts store) →
      (expr.evaluate store).diagnostics.Perm ((expr.nodes true).flatMap (Expr.overflow store))
  | .constant _ _ _, throughout => Expr.perm_of_computed throughout rfl (.refl _)
  | .symbol _ _ _, throughout => Expr.perm_of_computed throughout rfl (.refl _)
  | .variableTerm reference _, throughout => by
      have children := (Part.throughout_iff.mp throughout).2
      have inside := reference.perm_overflow (List.forall_mem_singleton.mp children)
      apply Expr.perm_of_computed throughout rfl
      obtain ⟨word, held⟩ := (throughout _ .refl).valued
      simpa [Expr.computed, held] using inside
  | .resolved root recovered _ _, throughout => by
      obtain ⟨whole, children⟩ := Part.throughout_iff.mp throughout
      have inside := root.perm_overflow (List.forall_mem_singleton.mp children)
      apply Expr.perm_of_computed throughout rfl
      cases recovered with
      | false => simpa [Expr.computed] using inside
      | true =>
          -- The zero that stands in for a list is not evaluated, and reports nothing.
          obtain ⟨_, zero⟩ := whole.marked
          cases zero rfl
          exact .refl _
  | .unary _ operand _ _ _, throughout => by
      have children := (Part.throughout_iff.mp throughout).2
      have inside := operand.perm_overflow (List.forall_mem_singleton.mp children)
      apply Expr.perm_of_computed throughout rfl
      simpa [Expr.computed] using inside
  | .binary _ left right _ _ _, throughout => by
      obtain ⟨first, others⟩ := List.forall_mem_cons.mp (Part.throughout_iff.mp throughout).2
      have inLeft := left.perm_overflow first
      have inRight := right.perm_overflow (List.forall_mem_singleton.mp others)
      apply Expr.perm_of_computed throughout rfl
      simpa [Expr.computed] using inLeft.append inRight
  | .symbolAttribute _ _ _ _, throughout | .variableAttribute _ _ _ _, throughout
  | .string _ _ _, throughout | .unresolved _ _, throughout =>
      (throughout _ .refl).arithmetic.elim

theorem VariableSymbol.perm_overflow :
    ∀ reference : VariableSymbol, (Part.reference reference).Throughout (Part.Counts store) →
      (reference.evaluate store).diagnostics.Perm
        ((reference.nodes true).flatMap (Expr.overflow store))
  | ⟨name, subscript, _⟩, throughout => by
      obtain ⟨inName, inSubscript⟩ :=
        List.forall_mem_append.mp (Part.throughout_iff.mp throughout).2
      have named := name.perm_overflow (List.forall_mem_map.mp inName)
      have words := perm_overflow_words subscript (List.forall_mem_map.mp inSubscript)
      rw [VariableSymbol.evaluate, VariableSymbol.nodes, List.flatMap_append]
      simpa using named.append words

theorem VariableName.perm_overflow :
    ∀ name : VariableName,
      (∀ symbol ∈ name.references, (Part.reference symbol).Throughout (Part.Counts store)) →
      (name.evaluate store).diagnostics.Perm ((name.nodes true).flatMap (Expr.overflow store))
  | .basic _, _ => .refl _
  | .created chain, throughout => by
      have inside := perm_overflow_chain chain throughout
      rw [VariableName.evaluate, VariableName.nodes]
      simpa using inside

theorem ChainItem.perm_overflow :
    ∀ item : ChainItem,
      (∀ symbol ∈ item.references, (Part.reference symbol).Throughout (Part.Counts store)) →
      (item.evaluate store).diagnostics.Perm ((item.nodes true).flatMap (Expr.overflow store))
  | .text _, _ | .dot, _ | .equals, _ => .refl _
  | .variableItem reference, throughout => by
      have inner := throughout reference (List.mem_singleton_self _)
      have inside := reference.perm_overflow inner
      obtain ⟨value, held⟩ := (inner _ .refl).valued
      rw [ChainItem.evaluate, ChainItem.nodes]
      simpa [held] using inside
  | .sublist members, throughout => perm_overflow_members members throughout

theorem perm_overflow_chain :
    ∀ chain : List ChainItem,
      (∀ symbol ∈ referencesOfChain chain, (Part.reference symbol).Throughout (Part.Counts store)) →
      (evaluateChain store chain).diagnostics.Perm
        ((nodesOfChain true chain).flatMap (Expr.overflow store))
  | [], _ => .refl _
  | item :: rest, throughout => by
      obtain ⟨first, others⟩ := List.forall_mem_append.mp throughout
      have inside := (item.perm_overflow first).append (perm_overflow_chain rest others)
      rw [evaluateChain, nodesOfChain, List.flatMap_append]
      simpa using inside

theorem perm_overflow_members :
    ∀ members : List (List ChainItem),
      (∀ symbol ∈ referencesOfMembers members,
        (Part.reference symbol).Throughout (Part.Counts store)) →
      (evaluateMembers store members).diagnostics.Perm
        ((nodesOfMembers true members).flatMap (Expr.overflow store))
  | [], _ => .refl _
  | chain :: rest, throughout => by
      obtain ⟨first, others⟩ := List.forall_mem_append.mp throughout
      have inside := (perm_overflow_chain chain first).append (perm_overflow_members rest others)
      rw [evaluateMembers, nodesOfMembers, List.flatMap_append]
      simpa using inside

theorem perm_overflow_words :
    ∀ exprs : List Expr, (∀ expr ∈ exprs, (Part.term expr).Throughout (Part.Counts store)) →
      (evaluateWords store exprs).diagnostics.Perm
        ((nodesOfEach true exprs).flatMap (Expr.overflow store))
  | [], _ => .refl _
  | expr :: rest, throughout => by
      obtain ⟨first, others⟩ := List.forall_mem_cons.mp throughout
      have inside := (expr.perm_overflow first).append (perm_overflow_words rest others)
      have domain := (first _ .refl).marked.domain?
      obtain ⟨word, found, evaluated⟩ := Expr.exists_evaluate_eq store domain
      have conforms : conform .arithmetic expr.range (.arithmetic word) = pure (.arithmetic word) :=
        conform_of_domain rfl _
      rw [evaluateWords, nodesOfEach, List.flatMap_append]
      rw [evaluated] at inside ⊢
      simpa [number, conforms] using inside

end

end

/-! ## Exact values -/

namespace Expr

variable {store : Store}

/-- The node computes what it denotes over the integers, and has that for its value. -/
structure IsExact (store : Store) (expr : Expr) : Prop where
  computed : (expr.computed store).value = expr.integer store
  value : (expr.evaluate store).value = .arithmetic (Int32.ofInt (expr.integer store))
  holds : Word.Holds (expr.integer store)

/-- The value of an exact node denotes what the node does. -/
theorem IsExact.integer_value {expr : Expr} (isExact : expr.IsExact store) :
    (expr.evaluate store).value.integer = expr.integer store := by
  rw [isExact.value, Value.integer_arithmetic, Word.toInt_ofInt_of_holds isExact.holds]

/-- Every node inside an expression gives a word, whether computed from the values of its operands
or over the integers. -/
def Held (store : Store) (expr : Expr) : Prop :=
  ∀ node ∈ expr.nodes true,
    Word.Holds (node.computed store).value ∨ Word.Holds (node.integer store)

theorem Held.isExact {expr : Expr} (held : expr.Held store)
    (throughout : (Part.term expr).Throughout (Part.Counts store))
    (same : (expr.computed store).value = expr.integer store) : expr.IsExact store := by
  have holds := held expr (expr.mem_nodes_self true)
  rw [same, or_self] at holds
  refine ⟨same, ?_, holds⟩
  rw [evaluate_eq_computed throughout, Reported.value_bind, same, exactly, if_pos holds]
  rfl

/-- The nodes inside a node give words as well. -/
theorem Held.of_mem {expr node : Expr} (held : expr.Held store)
    (isNode : node ∈ expr.nodes true) : node.Held store :=
  fun inner isInner => held inner (mem_nodes_trans isNode isInner)

/-- As long as every node gives a word, a sum is exact. -/
theorem isExact_of_held :
    ∀ expr : Expr, (Part.term expr).Throughout (Part.Counts store) → expr.Held store →
      expr.IsExact store
  | .constant _ _ _, throughout, held | .symbol _ _ _, throughout, held
  | .variableTerm _ _, throughout, held | .resolved _ true _ _, throughout, held =>
      held.isExact throughout rfl
  | .resolved root false _ _, throughout, held => by
      have inner := List.forall_mem_singleton.mp (Part.throughout_iff.mp throughout).2
      have heldInside := held.of_mem (List.mem_cons_of_mem _ (root.mem_nodes_self true))
      exact held.isExact throughout (root.isExact_of_held inner heldInside).integer_value
  | .unary operator operand _ _ _, throughout, held => by
      have inner := List.forall_mem_singleton.mp (Part.throughout_iff.mp throughout).2
      have heldInside := held.of_mem (List.mem_cons_of_mem _ (operand.mem_nodes_self true))
      have isExact := operand.isExact_of_held inner heldInside
      exact held.isExact throughout (congrArg operator.integer isExact.integer_value)
  | .binary operator left right _ _ _, throughout, held => by
      obtain ⟨inLeft, others⟩ := List.forall_mem_cons.mp (Part.throughout_iff.mp throughout).2
      have inRight := List.forall_mem_singleton.mp others
      have isLeft := List.mem_append_left (right.nodes true) (left.mem_nodes_self true)
      have isRight := List.mem_append_right (left.nodes true) (right.mem_nodes_self true)
      have first := left.isExact_of_held inLeft (held.of_mem (List.mem_cons_of_mem _ isLeft))
      have second := right.isExact_of_held inRight (held.of_mem (List.mem_cons_of_mem _ isRight))
      exact held.isExact throughout
        (congrArg₂ operator.integer first.integer_value second.integer_value)
  | .symbolAttribute _ _ _ _, throughout, _ | .variableAttribute _ _ _ _, throughout, _
  | .string _ _ _, throughout, _ | .unresolved _ _, throughout, _ =>
      (throughout _ .refl).arithmetic.elim

end Expr

theorem Context.evaluate_eq_self_iff {context : Context} {expr : Expr} :
    (context.evaluate expr).2 = context ↔ (expr.evaluate context.store).diagnostics = [] := by
  rcases context with ⟨store, diagnostics⟩
  simp [evaluate, record]

/-- In a tree that is resolved to a number and made of constants, defined
symbols, variables that hold numbers, parentheses, signs and basic operations,
every node gives the integer that its operation has for the values of its
operands, or reports an overflow at its range and gives zero.  What is reported
are these overflows.  So nothing is reported exactly when every node has a word
for its result, which is the same as having one for its result over the
integers, and then every node has that for its value. -/
theorem Context.evaluate_exact_or_reported (context : Context) {expr : Expr}
    (untagged : AllUntagged (expr.nodes false)) :
    let store := context.store
    let tree := (expr.resolve .arithmetic).value
    let quiet := (context.evaluate tree).2 = context
    tree.Calculates store →
      (∀ node ∈ tree.nodes true,
        node.evaluate store = node.computed store >>= exactly node.range) ∧
      (∃ added, (context.evaluate tree).2 =
          { context with diagnostics := context.diagnostics ++ added } ∧
        added.Perm ((tree.nodes true).flatMap fun node =>
          (exactly node.range (node.computed store).value).diagnostics)) ∧
      (quiet ↔ ∀ node ∈ tree.nodes true, Word.Holds (node.computed store).value) ∧
      (quiet ↔ ∀ node ∈ tree.nodes true, Word.Holds (node.integer store)) ∧
      (quiet → ∀ node ∈ tree.nodes true,
        (node.evaluate store).value = .arithmetic (Int32.ofInt (node.integer store))) := by
  intro store tree quiet calculates
  have marked : (Part.term tree).Throughout Part.IsMarked :=
    Part.isMarked_throughout untagged fun part inside => (calculates part inside).arithmetic
  have throughout : (Part.term tree).Throughout (Part.Counts store) := fun part inside =>
    ⟨calculates part inside, marked part inside⟩
  have inside {node : Expr} (isNode : node ∈ tree.nodes true) :
      (Part.term node).Throughout (Part.Counts store) := fun part isPart =>
    throughout part ((Expr.mem_nodes_iff_inside.mp isNode).trans isPart)
  have perm := tree.perm_overflow throughout
  have quiet_iff : quiet ↔ ∀ node ∈ tree.nodes true, Word.Holds (node.computed store).value := by
    refine Context.evaluate_eq_self_iff.trans ?_
    rw [← List.length_eq_zero_iff, perm.length_eq, List.length_eq_zero_iff,
      List.flatMap_eq_nil_iff]
    exact forall₂_congr fun node _ => Expr.overflow_eq_nil_iff
  -- `Held` asks for either of the two results, so that it serves both directions below.
  have exact_of_held (held : tree.Held store) {node : Expr} (isNode : node ∈ tree.nodes true) :
      node.IsExact store := node.isExact_of_held (inside isNode) (held.of_mem isNode)
  refine ⟨fun node isNode => Expr.evaluate_eq_computed (inside isNode), ⟨_, rfl, perm⟩,
    quiet_iff, ?_, ?_⟩
  · rw [quiet_iff]
    constructor
    · intro holds node isNode
      exact (exact_of_held (fun node isNode => .inl (holds node isNode)) isNode).holds
    · intro holds node isNode
      have isExact := exact_of_held (fun node isNode => .inr (holds node isNode)) isNode
      exact isExact.computed ▸ isExact.holds
  · intro silent node isNode
    have holds := quiet_iff.mp silent
    exact (exact_of_held (fun node isNode => .inl (holds node isNode)) isNode).value

/-- What is read from `-&X(1+1)+A*2147483647`. -/
def elementAndProduct : Expr :=
  .unresolved
    [.symbol "-" (.columns 0 1) none,
      .variableTerm
        ⟨.basic "X",
          [.unresolved
            [.constant 1 (.columns 4 5) none, .symbol "+" (.columns 5 6) none,
              .constant 1 (.columns 6 7) none]
            (.columns 4 7)],
          .columns 1 8⟩ none,
      .symbol "+" (.columns 8 9) none, .symbol "A" (.columns 9 10) none,
      .symbol "*" (.columns 10 11) none, .constant 2147483647 (.columns 11 21) none]
    (.columns 0 21)

open Expr.Calculates in
/-- When `A` is 3, the product overflows and counts as zero in the sum. -/
theorem Context.evaluate_exact_or_reported_product :
    let store := (Store.empty.setElement "X" 2 (.arithmetic 40)).defineSymbol "A" ⟨3, 'A', 1, 0, 0⟩
    let tree := (elementAndProduct.resolve .arithmetic).value
    Expr.read "-&X(1+1)+A*2147483647" = .ok elementAndProduct ∧ tree.Calculates store ∧
      (Context.ofStore store).evaluate tree =
        (.arithmetic (-40), ⟨store, [⟨.arithmeticOverflow, .columns 9 21⟩]⟩) ∧
      ¬ ∀ node ∈ tree.nodes true, Word.Holds (node.integer store) := by
  intro store tree
  have read : Expr.read "-&X(1+1)+A*2147483647" = .ok elementAndProduct := by cbv
  let index : Expr := .resolved
    (.binary .add (.constant 1 (.columns 4 5) (some .arithmetic))
      (.constant 1 (.columns 6 7) (some .arithmetic)) (.columns 4 7) .arithmetic .arithmetic)
    false (.columns 4 7) .arithmetic
  have resolved : tree = .resolved
      (.binary .add
        (.unary .minus (.variableTerm ⟨.basic "X", [index], .columns 1 8⟩ (some .arithmetic))
          (.columns 0 8) .arithmetic .arithmetic)
        (.binary .mul (.symbol "A" (.columns 9 10) (some .arithmetic))
          (.constant 2147483647 (.columns 11 21) (some .arithmetic)) (.columns 9 21)
          .arithmetic .arithmetic)
        (.columns 0 21) .arithmetic .arithmetic)
      false (.columns 0 21) .arithmetic := by
    change (elementAndProduct.resolve .arithmetic).value = _
    cbv
  have calculates : tree.Calculates store := by
    have inside : index.Calculates store :=
      parentheses (basic rfl (constant _ _ _) (constant _ _ _) _ _ _) _ _ _
    have held : (VariableSymbol.evaluate store ⟨.basic "X", [index], .columns 1 8⟩).value =
        .ok (.arithmetic 40) := by cbv
    have defined : store.symbol? "A" = some 3 := by cbv
    have element := variableTerm held (List.forall_mem_singleton.mpr inside) (some .arithmetic)
    rw [resolved]
    exact parentheses (basic rfl (sign rfl element _ _ _)
      (basic rfl (symbol defined _ _) (constant _ _ _) _ _ _) _ _ _) _ _ _
  have evaluated : (Context.ofStore store).evaluate tree =
      (.arithmetic (-40), ⟨store, [⟨.arithmeticOverflow, .columns 9 21⟩]⟩) := by
    rw [resolved]
    cbv
  obtain ⟨_, _, _, quiet_iff, _⟩ := (Context.ofStore store).evaluate_exact_or_reported
    (Expr.allFresh_of_read read).untagged calculates
  refine ⟨read, calculates, evaluated, ?_⟩
  intro holds
  have silent : ((Context.ofStore store).evaluate tree).2.diagnostics = [] :=
    congrArg Context.diagnostics (quiet_iff.mpr holds)
  rw [evaluated] at silent
  cases silent

end ConditionalAssembly
