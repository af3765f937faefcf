import ConditionalAssembly.Proofs.Expr.Parsing
import ConditionalAssembly.Proofs.Resolution.Tree
import ConditionalAssembly.Proofs.Token.Scanning
import ConditionalAssembly.Context

/-!
# Quoted texts

A source that is one quoted text is read as one string.  The text is evaluated
from left to right: characters stand for themselves, doubled quotes for one
quote, doubled ampersands for two, and a name behind an ampersand for the value
of the variable.  None of the variables has a subscript, so resolving the text
changes nothing in it.
-/

namespace ConditionalAssembly

open Text Evaluation

/-- The text that a variable without a subscript contributes, none when it has no value. -/
def Store.text (store : Store) (name : String) : String :=
  ((store.value? name []).map Value.substituted).getD ""

/-! ## One string -/

/-- Some characters between quotes. -/
def quotation (body : List Char) : String :=
  String.ofList ('\'' :: (body ++ ['\'']))

/-- The string that stands between the quotes, over the whole source. -/
def quotedTerm (body : List Char) (domain : Option Domain) : Expr :=
  .string ⟨none, Chain.ofQuoted 1 body, .whole⟩
    (.columns 0 (byteCount ('\'' :: (body ++ ['\''])))) domain

/-- A quotation is read as the string between its quotes. -/
theorem read_quotation {body : List Char} (continues : Token.Continues body) :
    Expr.read (quotation body) =
      .ok (.unresolved [quotedTerm body none] (.columns 0 (quotation body).utf8ByteSize)) := by
  have quoted (placed : PlacedToken) (isQuoted : placed.token = .string (String.ofList body)) :
      Grammar.Fragments [placed] [.string
        ⟨none, Chain.ofQuoted (placed.start + 1) (String.ofList body).toList, .whole⟩
        (.columns placed.start placed.stop) none] :=
    .cons (.string (.once isQuoted) .whole) nofun .nil
  have read := read_of_derives (Token.listOf_quoted continues) (quoted _ rfl)
  rw [String.toList_ofList] at read
  exact read

/-! ## Resolving -/

/-- Resolving leaves the items of a chain as they are. -/
def Chain.Steady (chain : Chain) : Prop :=
  ∀ item ∈ chain, item.resolve = pure item

namespace Chain

theorem Steady.resolveChain_eq {chain : Chain} (steady : chain.Steady) :
    resolveChain chain = pure chain := by
  induction chain with
  | nil => rfl
  | cons item rest ih =>
      obtain ⟨first, others⟩ := List.forall_mem_cons.mp steady
      rw [resolveChain, first, ih others]
      rfl

theorem steady_cons {item : ChainItem} {chain : Chain} (first : item.resolve = pure item)
    (others : Chain.Steady chain) : Chain.Steady (item :: chain) :=
  List.forall_mem_cons.mpr ⟨first, others⟩

theorem steady_prependText (text : String) {chain : Chain} (steady : chain.Steady) :
    (prependText text chain).Steady := by
  unfold prependText
  split
  next next rest => exact steady_cons rfl (List.forall_mem_cons.mp steady).2
  next => exact steady_cons rfl steady

/-- A quoted text stays as it is when it is resolved. -/
theorem steady_ofQuoted (column : Nat) (cs : List Char) : (ofQuoted column cs).Steady := by
  fun_induction ofQuoted column cs with
  | case1 =>
      intro item isItem
      cases isItem
  | case2 | case3 | case4 | case6 | case9 =>
      rename_i ih
      exact steady_prependText _ ih
  | case5 | case7 | case8 =>
      rename_i ih
      exact steady_cons rfl ih

end Chain

/-- A list that is one quoted text is resolved by marking the string. -/
theorem resolve_quotedTerm (body : List Char) (range : Range) :
    (Expr.unresolved [quotedTerm body none] range).resolve .character =
      pure (.resolved (quotedTerm body (some .character)) false range .character) := by
  have marked : (quotedTerm body none).resolve .character =
      pure (quotedTerm body (some .character)) := by
    rw [Expr.resolve, quotedTerm, Selection.whole, Expr.resolveWith,
      (Chain.steady_ofQuoted 1 body).resolveChain_eq]
    rfl
  have formed (table : OperatorTable) :
      Phrase.ofItems table Expr.word? [quotedTerm body none] =
        .ok (.operand (quotedTerm body none)) := by
    simp [Phrase.ofItems, Phrase.term, Phrase.climb, quotedTerm, Expr.word?]
  rw [Expr.resolve, resolveWith_of_phrase (formed _)]
  simp only [Phrase.tree, Phrase.built, Phrase.pending, reportedBy, OperatorTable.domain_ofDomain]
  simp [marked]
  rfl

/-! ## Evaluating -/

theorem settle_text {text : String} (fits : text.length ≤ Value.maxLength) (range : Range) :
    settle (some .character) range (pure (.ok (.character text))) = pure (.character text) := by
  simp [settle, limited, fits, conform, Value.domain]

/-- The value of a quoted text is the text of its chain, as long as that is not too long. -/
theorem calculateSource_quotation {body : List Char} (continues : Token.Continues body)
    (context : Context) {text : String}
    (evaluated : evaluateChain context.store (Chain.ofQuoted 1 body) = pure text)
    (fits : text.length ≤ Value.maxLength) :
    context.calculateSource .character (quotation body) = .ok (.character text, context) := by
  have ofString : (quotedTerm body (some .character)).evaluate context.store =
      pure (.character text) := by
    rw [quotedTerm, Selection.whole, Expr.evaluate, StringTerm.evaluate, evaluated]
    exact settle_text fits _
  have ofList (range : Range) :
      (Expr.resolved (quotedTerm body (some .character)) false range .character).evaluateAs
        context.store .character = pure (.character text) := by
    rw [Expr.evaluateAs, Expr.evaluate, ofString]
    change (settle (some .character) range (pure (.ok (.character text))) >>= _) = _
    rw [settle_text fits]
    rfl
  unfold Context.calculateSource
  rw [read_quotation continues]
  change Except.ok ((context.resolve .character _).2.evaluateAs .character
    (context.resolve .character _).1) = _
  rw [Context.resolve, resolve_quotedTerm, Context.evaluateAs, Context.store_record]
  change Except.ok (Context.record _ ((Expr.resolved _ _ _ _).evaluateAs _ _)) = _
  rw [ofList]
  simp [Context.record]

/-! ## From left to right -/

namespace Chain

variable (store : Store)

/-- Literal text is written in front of the rest of a chain. -/
theorem evaluateChain_prependText (text : String) (chain : Chain) :
    evaluateChain store (prependText text chain) = (text ++ ·) <$> evaluateChain store chain := by
  unfold prependText
  split
  next next rest =>
    apply Reported.ext
    · simp [evaluateChain, ChainItem.evaluate, String.append_assoc]
    · simp [evaluateChain, ChainItem.evaluate]
  next =>
    apply Reported.ext
    · simp [evaluateChain, ChainItem.evaluate]
    · simp [evaluateChain, ChainItem.evaluate]

/-- Any character but a quote or an ampersand stands for itself. -/
theorem evaluateChain_char {c : Char} (noQuote : c ≠ '\'') (noAmpersand : c ≠ '&') (column : Nat)
    (cs : List Char) :
    evaluateChain store (ofQuoted column (c :: cs)) =
      (c.toString ++ ·) <$> evaluateChain store (ofQuoted (column + c.utf8Size) cs) := by
  have isPiece (item : ChainItem) (written : item.evaluate store = pure c.toString)
      (chain : Chain) :
      evaluateChain store (item :: chain) = (c.toString ++ ·) <$> evaluateChain store chain := by
    rw [evaluateChain, written]
    rfl
  by_cases period : c = '.'
  · subst period
    rw [ofQuoted]
    exact isPiece .dot (by rw [ChainItem.evaluate]; rfl) _
  · by_cases equals : c = '='
    · subst equals
      rw [ofQuoted]
      exact isPiece .equals (by rw [ChainItem.evaluate]; rfl) _
    · rw [ofQuoted, evaluateChain_prependText]
      all_goals simp_all

/-- Two quotes stand for one. -/
theorem evaluateChain_quotes (column : Nat) (cs : List Char) :
    evaluateChain store (ofQuoted column ('\'' :: '\'' :: cs)) =
      ("'" ++ ·) <$> evaluateChain store (ofQuoted (column + 2) cs) := by
  rw [ofQuoted, evaluateChain_prependText]

/-- Two ampersands stay two. -/
theorem evaluateChain_ampersands (column : Nat) (cs : List Char) :
    evaluateChain store (ofQuoted column ('&' :: '&' :: cs)) =
      ("&&" ++ ·) <$> evaluateChain store (ofQuoted (column + 2) cs) := by
  rw [ofQuoted, evaluateChain_prependText]

/-- A name behind an ampersand stands for a variable, together with one period behind it. -/
theorem ofQuoted_reference {name rest : List Char} (valid : isName name)
    (ends : rest.head?.any isNameChar = false) (column : Nat) :
    ∃ range stop, ofQuoted column ('&' :: (name ++ rest)) =
      .variableItem ⟨.basic (nameOf name), [], range⟩ :: ofQuoted stop (dropPeriod rest) := by
  cases name with
  | nil => exact nomatch valid
  | cons c cs =>
      rw [isName, Bool.and_eq_true] at valid
      obtain ⟨start, all⟩ := valid
      have different : c ≠ '&' := by
        rintro rfl
        exact absurd start (by decide)
      rw [List.cons_append, ofQuoted]
      · simp only [start, if_true, takeWhile_of_ends all ends, dropWhile_of_ends all ends]
        exact ⟨_, _, rfl⟩
      · exact different

/-- A variable without a subscript is looked up by its name alone. -/
theorem evaluate_reference (name : String) (range : Range) :
    ChainItem.evaluate store (.variableItem ⟨.basic name, [], range⟩) =
      (store.value? name []).elim (.report (.undefinedVariable name) range "")
        fun value => pure value.substituted := by
  rw [ChainItem.evaluate, VariableSymbol.evaluate, VariableName.evaluate, evaluateWords]
  cases held : store.value? name [] <;> simp [variableValue, held]

/-- A variable without a subscript that holds a value stands for the text of the value. -/
theorem evaluateChain_reference {name : String} {value : Value}
    (held : store.value? name [] = some value) (range : Range) (chain : Chain) :
    evaluateChain store (.variableItem ⟨.basic name, [], range⟩ :: chain) =
      (store.text name ++ ·) <$> evaluateChain store chain := by
  rw [evaluateChain, evaluate_reference, Store.text, held]
  rfl

theorem value_evaluateChain_reference (name : String) (range : Range) (chain : Chain) :
    (evaluateChain store (.variableItem ⟨.basic name, [], range⟩ :: chain)).value =
      store.text name ++ (evaluateChain store chain).value := by
  rw [evaluateChain, evaluate_reference, Store.text]
  cases store.value? name [] <;> rfl

/-! ## Characters that mean the same everywhere -/

/-- Wherever the characters stand in a quoted text, they are evaluated to the text. -/
def Renders (store : Store) (cs : List Char) (text : String) : Prop :=
  ∀ column rest, ∃ stop, evaluateChain store (ofQuoted column (cs ++ rest)) =
    (text ++ ·) <$> evaluateChain store (ofQuoted stop rest)

variable {store}

theorem renders_nil : Renders store [] "" := by
  intro column rest
  exact ⟨column, by simp⟩

theorem Renders.append {first second : List Char} {text further : String}
    (one : Renders store first text) (two : Renders store second further) :
    Renders store (first ++ second) (text ++ further) := by
  intro column rest
  obtain ⟨middle, beginning⟩ := one column (second ++ rest)
  obtain ⟨stop, ending⟩ := two middle rest
  refine ⟨stop, ?_⟩
  rw [List.append_assoc, beginning, ending, Functor.map_map]
  simp only [String.append_assoc]

theorem renders_char {c : Char} (noQuote : c ≠ '\'') (noAmpersand : c ≠ '&') :
    Renders store [c] c.toString := by
  intro column rest
  exact ⟨_, evaluateChain_char store noQuote noAmpersand column rest⟩

theorem renders_literal {cs : List Char} (noQuote : '\'' ∉ cs) (noAmpersand : '&' ∉ cs) :
    Renders store cs (String.ofList cs) := by
  induction cs with
  | nil => exact renders_nil
  | cons c cs ih =>
      rw [List.mem_cons, not_or] at noQuote noAmpersand
      rw [← List.singleton_append, String.ofList_append]
      exact (renders_char (Ne.symm noQuote.1) (Ne.symm noAmpersand.1)).append
        (ih noQuote.2 noAmpersand.2)

end Chain

end ConditionalAssembly
