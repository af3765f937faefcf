import ConditionalAssembly.Context
import ConditionalAssembly.Proofs.Printing.Restoring
import ConditionalAssembly.Proofs.Token.Lexing

/-!
# Printed trees are read back

The printed form of a legible tree falls into tokens that make up one fragment,
and this fragment restores the tree.  Operators become lists, the words
of an operator stand apart from its operands, and a subscript stands directly
behind its variable.
-/

namespace ConditionalAssembly

open Grammar Token

/-! ## Words -/

/-- A word is one token wherever it ends. -/
theorem Token.IsWord.exists_lexes {word : String} (isWord : IsWord word) (offset : Nat) :
    ∃ placed : PlacedToken, placed.token.word? = some word ∧
      Lexes offset word.toList [placed] := by
  obtain ⟨token, named, spelled⟩ := isWord
  cases token with
  | identifier name =>
      cases spelled
      exact ⟨_, rfl, lexes_word offset named⟩
  | plus | minus | star | slash | dot =>
      cases spelled
      exact ⟨_, rfl, Lexes.mark _ rfl lexes_nil⟩
  | _ => cases spelled

/-- Words with blanks between them are one token each. -/
theorem Token.exists_lexes_words {words : List String} (areWords : ∀ word ∈ words, IsWord word)
    (offset : Nat) :
    ∃ tokens : List PlacedToken, Lexes offset (Text.join " " words).toList tokens ∧
      tokens.map (·.token.word?) = words.map some := by
  fun_induction Text.join " " words generalizing offset with
  | case1 => exact ⟨[], lexes_nil, rfl⟩
  | case2 word =>
      obtain ⟨placed, spelled, lexes⟩ := (areWords word (by simp)).exists_lexes offset
      exact ⟨[placed], lexes, by simp [spelled]⟩
  | case3 word rest _ ih =>
      obtain ⟨isWord, others⟩ := List.forall_mem_cons.mp areWords
      obtain ⟨placed, spelled, lexes⟩ := isWord.exists_lexes offset
      obtain ⟨tokens, lexesRest, spelledRest⟩ := ih others _
      refine ⟨placed :: tokens, ?_, by simp [spelled, spelledRest]⟩
      rw [String.toList_append, String.toList_append, List.append_assoc]
      exact lexes.append lexesRest.blank

/-- No term goes on with a word. -/
theorem endsBefore_words (tail : Tail) {tokens : List PlacedToken} {words : List String}
    (spelled : tokens.map (·.token.word?) = words.map some) (nonempty : words ≠ [])
    (rest : List PlacedToken) : tail.EndsBefore (tokens ++ rest) := by
  intro next isNext takes
  obtain ⟨word, others, rfl⟩ := List.exists_cons_of_ne_nil nonempty
  obtain ⟨placed, more, rfl, isWord, _⟩ := List.map_eq_cons_iff.mp spelled
  cases isNext
  cases tail with
  | closed => exact takes
  | parenthesis stop =>
      rw [takes.1] at isWord
      cases isWord
  | string stop =>
      obtain ⟨raw, isString⟩ := takes.1
      rw [isString] at isWord
      cases isWord

/-- Tokens of words are fragments in front of others. -/
theorem fragments_words {tokens : List PlacedToken} {words : List String}
    (spelled : tokens.map (·.token.word?) = words.map some) :
    ∃ items : List Expr, items.map Expr.word? = words.map some ∧
      ∀ {rest : List PlacedToken} {fragments : List Expr}, Fragments rest fragments →
        Fragments (tokens ++ rest) (items ++ fragments) := by
  induction words generalizing tokens with
  | nil =>
      cases List.map_eq_nil_iff.mp spelled
      exact ⟨[], rfl, fun derived => derived⟩
  | cons word others ih =>
      obtain ⟨placed, more, rfl, isWord, spelledMore⟩ := List.map_eq_cons_iff.mp spelled
      obtain ⟨items, areWords, derives⟩ := ih spelledMore
      refine ⟨.symbol word placed.range none :: items, ?_, fun derived => ?_⟩
      · rw [List.map_cons, List.map_cons, areWords]
        rfl
      · have first := @Fragment.word placed word isWord
        have list := Fragments.cons first (Reader.endsBefore_closed _) (derives derived)
        exact list

/-! ## Operators -/

theorem UnaryOperator.isWord_text {operator : UnaryOperator} (numeric : operator.isNumeric) :
    IsWord operator.text := by
  cases operator with
  | plus => exact ⟨.plus, trivial, rfl⟩
  | minus => exact ⟨.minus, trivial, rfl⟩
  | not => exact isWord_of_isUpperName (by decide)
  | _ => cases numeric

theorem BinaryOperator.words_ne_nil (operator : BinaryOperator) : operator.words ≠ [] := by
  cases operator <;> exact List.cons_ne_nil _ _

/-- A binary operator is printed as its words with blanks between them. -/
theorem BinaryOperator.text_eq_join (operator : BinaryOperator) :
    operator.text = Text.join " " operator.words := by
  cases operator <;> rfl

theorem BinaryOperator.isWord_of_mem_words {operator : BinaryOperator}
    (numeric : operator.isNumeric) : ∀ word ∈ operator.words, IsWord word := by
  cases operator with
  | add => exact List.forall_mem_singleton.mpr ⟨.plus, trivial, rfl⟩
  | sub => exact List.forall_mem_singleton.mpr ⟨.minus, trivial, rfl⟩
  | mul => exact List.forall_mem_singleton.mpr ⟨.star, trivial, rfl⟩
  | div => exact List.forall_mem_singleton.mpr ⟨.slash, trivial, rfl⟩
  | and | or | xor | andNot | orNot | xorNot | sla | sll | sra | srl =>
      intro word isWord
      exact isWord_of_isUpperName (by revert word isWord; decide)
  | _ => cases numeric

/-! ## Lists -/

theorem exists_group {offset : Nat} {text : List Char} {tokens : List PlacedToken}
    {fragments : List Expr} (lexes : Lexes (offset + Text.byteCount ['(']) text tokens)
    (derived : Fragments tokens fragments) :
    ∃ all range stop, all ≠ [] ∧ Lexes offset ('(' :: (text ++ [')'])) all ∧
      Fragment all (.unresolved fragments range) (.string stop) := by
  have closed := lexes.append (Lexes.mark ')' rfl lexes_nil)
  exact ⟨_, _, _, List.cons_ne_nil _ _, closed.mark '(' rfl,
    .group rfl derived rfl⟩

/-! ## Trees -/

/-- From every offset on, the printed tree falls into the tokens of a fragment that restores the
tree. -/
def Expr.ReadsBack (tree : Expr) : Prop :=
  ∀ offset, ∃ tokens fragment tail, tokens ≠ [] ∧ Lexes offset tree.render.toList tokens ∧
    Fragment tokens fragment tail ∧ fragment.Restores tree

namespace Expr

theorem readsBack_constant {value : Nat} (bounded : value < 2147483648) (place : Range) :
    (Expr.constant (.ofInt value) place (some .arithmetic)).ReadsBack := by
  intro offset
  have word : (Int32.ofInt value).toInt = value := by
    apply Word.toInt_ofInt_of_mem
    · exact Int.le_trans (by decide) (Int.natCast_nonneg value)
    · exact Int.lt_add_one_iff.mp (Int.ofNat_lt.mpr bounded)
  have nonneg : 0 ≤ (Int32.ofInt value).toInt := by
    rw [word]
    exact Int.natCast_nonneg value
  exact ⟨_, _, _, List.cons_ne_nil _ _, lexes_ofWord offset nonneg, .constant nonneg rfl,
    .constant _ _ place⟩

theorem readsBack_symbol {name : String} (isWord : IsWord name)
    (notUnary : OperatorTable.arithmetic.unary? name = none) (place : Range) :
    (Expr.symbol name place (some .arithmetic)).ReadsBack := by
  intro offset
  obtain ⟨placed, spelled, lexes⟩ := isWord.exists_lexes offset
  exact ⟨_, _, _, List.cons_ne_nil _ _, lexes, .word spelled, .symbol notUnary _ place⟩

theorem readsBack_symbolAttribute (kind : Attribute) {name : String}
    (upper : Text.IsUpperName name) (place : Range) :
    (Expr.symbolAttribute kind name place (some .arithmetic)).ReadsBack := by
  intro offset
  have lexes := lexes_attributeOf offset kind upper
  have printed : (Expr.symbolAttribute kind name place (some .arithmetic)).render.toList =
      kind.letter :: '\'' :: name.toList := by
    simp [render, String.toList_append]
  rw [← printed] at lexes
  exact ⟨_, _, _, List.cons_ne_nil _ _, lexes, .symbolAttribute rfl,
    .symbolAttribute kind name _ place⟩

/-- The word of an operator and its operand are read as a list that restores the node. -/
theorem ReadsBack.unary {operator : UnaryOperator} (numeric : operator.isNumeric) {operand : Expr}
    (back : operand.ReadsBack) (place : Range) :
    (Expr.unary operator operand place .arithmetic .arithmetic).ReadsBack := by
  intro offset
  have printed : (Expr.unary operator operand place .arithmetic .arithmetic).render.toList =
      '(' :: (operator.text.toList ++ ' ' :: operand.render.toList ++ [')']) := by
    simp [render, String.toList_append]
  obtain ⟨placed, spelled, lexesWord⟩ := (operator.isWord_text numeric).exists_lexes _
  obtain ⟨tokens, fragment, tail, _, lexes, derived, restores⟩ := back _
  have word := @Fragment.word placed _ spelled
  have list := Fragments.cons word (Reader.endsBefore_closed _) derived.single
  obtain ⟨all, range, stop, nonempty, lexesAll, group⟩ :=
    exists_group (lexesWord.append lexes.blank) list
  rw [← printed] at lexesAll
  exact ⟨all, _, _, nonempty, lexesAll, group, restores.unary numeric rfl range place⟩

/-- The words of an operator between its operands are read as a list that restores the node. -/
theorem ReadsBack.binary {operator : BinaryOperator} (numeric : operator.isNumeric)
    {left right : Expr} (leftBack : left.ReadsBack) (rightBack : right.ReadsBack)
    (place : Range) :
    (Expr.binary operator left right place .arithmetic .arithmetic).ReadsBack := by
  intro offset
  have printed : (Expr.binary operator left right place .arithmetic .arithmetic).render.toList =
      '(' :: (left.render.toList ++ ' ' :: (operator.text.toList ++ ' ' :: right.render.toList) ++
        [')']) := by
    simp [render, String.toList_append]
  obtain ⟨leftTokens, leftFragment, leftTail, _, lexesLeft, leftDerived, leftRestores⟩ :=
    leftBack _
  obtain ⟨words, lexesWords, spelled⟩ :=
    exists_lexes_words (operator.isWord_of_mem_words numeric) _
  obtain ⟨rightTokens, rightFragment, rightTail, _, lexesRight, rightDerived, rightRestores⟩ :=
    rightBack _
  rw [← operator.text_eq_join] at lexesWords
  obtain ⟨items, areWords, derives⟩ := fragments_words spelled
  have ends := endsBefore_words leftTail spelled operator.words_ne_nil rightTokens
  have list := Fragments.cons leftDerived ends (derives rightDerived.single)
  obtain ⟨all, range, stop, nonempty, lexesAll, group⟩ :=
    exists_group (lexesLeft.append (lexesWords.append lexesRight.blank).blank) list
  rw [← printed] at lexesAll
  exact ⟨all, _, _, nonempty, lexesAll, group,
    leftRestores.binary rightRestores numeric areWords range place⟩

end Expr

/-! ## Subscripts -/

/-- From every offset on, printed subscripts with a parenthesis behind them fall into the tokens of
arguments that restore them. -/
def ArgumentsReadBack (trees : List Expr) : Prop :=
  ∀ offset, ∃ tokens arguments stop, 1 < tokens.length ∧
    Lexes offset ((Text.join "," (renderEach trees)).toList ++ [')']) tokens ∧
    Arguments tokens arguments stop ∧ Expr.RestoreEach arguments trees

/-- The parenthesis stands behind the last subscript. -/
theorem argumentsReadBack_last {tree : Expr} (back : tree.ReadsBack) :
    ArgumentsReadBack [tree] := by
  intro offset
  obtain ⟨tokens, fragment, tail, nonempty, lexes, derived, restores⟩ := back offset
  obtain ⟨close, closes, _, lexesClose⟩ := Lexes.exists_mark ')' rfl lexes_nil
  have arguments := Arguments.last derived.single closes
  refine ⟨_, _, _, ?_, lexes.append lexesClose, arguments,
    (restores.list _).restoreEach Expr.restoreEach_nil⟩
  have positive := List.length_pos_iff.mpr nonempty
  rw [List.length_append, List.length_singleton]
  omega

/-- A comma stands behind any other subscript. -/
theorem ArgumentsReadBack.comma {tree next : Expr} {rest : List Expr} (back : tree.ReadsBack)
    (others : ArgumentsReadBack (next :: rest)) : ArgumentsReadBack (tree :: next :: rest) := by
  intro offset
  obtain ⟨tokens, fragment, tail, _, lexes, derived, restores⟩ := back offset
  obtain ⟨more, arguments, stop, several, lexesMore, derivedMore, restoresMore⟩ := others _
  obtain ⟨comma, divides, _, lexesComma⟩ := Lexes.exists_mark ',' rfl lexesMore
  have all := Arguments.comma derived.single divides derivedMore
  have printed : (Text.join "," (renderEach (tree :: next :: rest))).toList ++ [')'] =
      tree.render.toList ++
        ',' :: ((Text.join "," (renderEach (next :: rest))).toList ++ [')']) := by
    rw [renderEach, renderEach, Text.join_cons_cons]
    simp [String.toList_append]
  refine ⟨_, _, _, ?_, printed ▸ lexes.append lexesComma, all,
    (restores.list _).restoreEach restoresMore⟩
  rw [List.length_append, List.length_cons]
  omega

/-- Subscripts are read back when each of them is. -/
theorem argumentsReadBack {tree : Expr} {rest : List Expr}
    (back : ∀ index ∈ tree :: rest, index.ReadsBack) : ArgumentsReadBack (tree :: rest) := by
  induction rest generalizing tree with
  | nil => exact argumentsReadBack_last (back tree (by simp))
  | cons next others ih =>
      obtain ⟨first, behind⟩ := List.forall_mem_cons.mp back
      exact .comma first (ih behind)

namespace Expr

/-- A variable is read back with its subscripts directly behind it. -/
theorem readsBack_variableTerm {name : String} (upper : Text.IsUpperName name)
    {subscript : List Expr} (back : ∀ index ∈ subscript, index.ReadsBack) (place : Range) :
    (Expr.variableTerm ⟨.basic name, subscript, place⟩ (some .arithmetic)).ReadsBack := by
  intro offset
  obtain ⟨placed, isName, stops, lexesName⟩ : ∃ placed : PlacedToken,
      placed.token = .variableName name ∧
        placed.stop = offset + Text.byteCount ('&' :: name.toList) ∧
        Lexes offset ('&' :: name.toList) [placed] :=
    ⟨_, rfl, rfl, lexes_variableName offset upper⟩
  cases subscript with
  | nil =>
      have printed : (Expr.variableTerm ⟨.basic name, [], place⟩
          (some .arithmetic)).render.toList = '&' :: name.toList := by
        simp [render_variableTerm, renderEach, String.toList_append]
      rw [← printed] at lexesName
      exact ⟨_, _, _, List.cons_ne_nil _ _, lexesName, .variableTerm (.basic isName) .none,
        restoreEach_nil.variableTerm name _ place⟩
  | cons first rest =>
      have printed : (Expr.variableTerm ⟨.basic name, first :: rest, place⟩
          (some .arithmetic)).render.toList =
          '&' :: name.toList ++
            '(' :: ((Text.join "," (renderEach (first :: rest))).toList ++ [')']) := by
        simp [render_variableTerm, renderEach, String.toList_append]
      obtain ⟨tokens, arguments, stop, several, lexes, derived, restores⟩ :=
        argumentsReadBack back _
      obtain ⟨opener, opens, starts, lexesOpener⟩ := lexes.exists_mark '(' rfl
      have whole := lexesName.append lexesOpener
      rw [← printed] at whole
      have adjacent := starts.trans stops.symm
      exact ⟨_, _, _, List.cons_ne_nil _ _, whole,
        .variableTerm (.basic isName) (.some opens adjacent derived (Nat.ne_of_gt several)),
        restores.variableTerm name _ place⟩

/-- A legible tree is read back. -/
theorem Legible.readsBack {tree : Expr} (legible : tree.Legible) : tree.ReadsBack := by
  induction legible with
  | constant bounded => exact readsBack_constant bounded _
  | symbol isWord notUnary => exact readsBack_symbol isWord notUnary _
  | symbolAttribute upper => exact readsBack_symbolAttribute _ upper _
  | variableTerm upper _ back => exact readsBack_variableTerm upper back _
  | @resolved root range inner back =>
      intro offset
      obtain ⟨tokens, fragment, tail, nonempty, lexes, derived, restores⟩ := back offset
      exact ⟨tokens, fragment, tail, nonempty, lexes, derived,
        restores.resolved inner.domain? range⟩
  | unary numeric _ back => exact back.unary numeric _
  | binary numeric _ _ leftBack rightBack => exact leftBack.binary numeric rightBack _

end Expr

/-! ## Sources -/

/-- A source without strings, created names, attributes of variables and searches that is resolved
as a number without a diagnostic may be replaced by its printed tree: this is read, is resolved
without a diagnostic to a tree that is printed in the same way, and in every context has the same
value and reports the same problems. -/
theorem render_reads_back {source : String} {expr : Expr} (read : Expr.read source = .ok expr)
    (elementary : AllElementary (expr.nodes true))
    (quiet : (expr.resolve .arithmetic).diagnostics = [])
    (noSearch : NoSearch ((expr.resolve .arithmetic).value.nodes true)) :
    let tree := (expr.resolve .arithmetic).value
    ∃ again, Expr.read tree.render = .ok again ∧
      (again.resolve .arithmetic).diagnostics = [] ∧
      (again.resolve .arithmetic).value.render = tree.render ∧
      ∀ context : Context,
        (context.evaluate (again.resolve .arithmetic).value).1 = (context.evaluate tree).1 ∧
        (context.evaluate (again.resolve .arithmetic).value).2.diagnostics.map Diagnostic.problem =
          (context.evaluate tree).2.diagnostics.map Diagnostic.problem := by
  intro tree
  obtain ⟨tokens, fragments, _, _, rfl⟩ := derives_read source expr read
  have legible : tree.Legible :=
    (Expr.elementary_of_read read elementary).legible rfl quiet noSearch
  obtain ⟨tokens, fragment, tail, _, lexes, derived, restores⟩ := legible.readsBack 0
  have listed := lexes.listOf
  rw [String.ofList_toList] at listed
  have again := restores.list (.columns 0 tree.render.utf8ByteSize)
  refine ⟨_, read_of_derives listed derived.single, again.quiet, again.render, fun context => ?_⟩
  have alike := again.alike context.store
  refine ⟨alike.value, ?_⟩
  simp only [Context.evaluate, Context.diagnostics_record, List.map_append]
  exact congrArg _ alike.problems

/-- The fragments of `and and not &a(-1)`. -/
def wordsForOperands : List Expr :=
  [.symbol "AND" (.columns 0 3) none, .symbol "AND" (.columns 4 7) none,
    .symbol "NOT" (.columns 8 11) none,
    .variableTerm ⟨.basic "A", [.unresolved
      [.symbol "-" (.columns 15 16) none, .constant 1 (.columns 16 17) none] (.columns 15 17)],
      .columns 12 18⟩ none]

/-- In `and and not &a(-1)` the first word is an operand and the other two are one operator.  The
printed tree is read back, and neither the symbol nor the variable is defined. -/
theorem render_reads_back_words :
    let expr := Expr.unresolved wordsForOperands (.columns 0 18)
    let printed := "(AND AND NOT &A((- 1)))"
    Expr.read "and and not &a(-1)" = .ok expr ∧
      (expr.resolve .arithmetic).value.render = printed ∧
      ∃ again, Expr.read printed = .ok again ∧ (again.resolve .arithmetic).diagnostics = [] ∧
        (again.resolve .arithmetic).value.render = printed ∧
        (Context.evaluate {} (again.resolve .arithmetic).value).2.diagnostics.map
          Diagnostic.problem = [.undefinedSymbol "AND", .undefinedVariable "A"] := by
  intro expr printed
  have read : Expr.read "and and not &a(-1)" = .ok expr := by cbv
  have isPrinted : (expr.resolve .arithmetic).value.render = printed := by cbv
  have quiet : (expr.resolve .arithmetic).diagnostics = [] := by cbv
  have simple : (expr.nodes true).all Expr.isElementary = true := by cbv
  have others : ((expr.resolve .arithmetic).value.nodes true).all (!·.isSearch) = true := by cbv
  have elementary : AllElementary (expr.nodes true) := List.all_eq_true.mp simple
  have noSearch : NoSearch ((expr.resolve .arithmetic).value.nodes true) :=
    fun node isNode => by simpa using List.all_eq_true.mp others node isNode
  have reports : (Context.evaluate {} (expr.resolve .arithmetic).value).2.diagnostics.map
      Diagnostic.problem = [.undefinedSymbol "AND", .undefinedVariable "A"] := by cbv
  obtain ⟨again, readAgain, quietAgain, printedAgain, evaluated⟩ :=
    render_reads_back read elementary quiet noSearch
  rw [isPrinted] at readAgain printedAgain
  exact ⟨read, isPrinted, again, readAgain, quietAgain, printedAgain,
    (evaluated {}).2.trans reports⟩

end ConditionalAssembly
