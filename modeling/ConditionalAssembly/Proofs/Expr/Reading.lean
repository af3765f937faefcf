import ConditionalAssembly.Expr.Reader
import ConditionalAssembly.Proofs.Expr.Grammar
import ConditionalAssembly.Proofs.Expr.Nodes

/-!
# What is read

Reading gives lists of fragments and terms that belong to no domain yet.  An
attribute can only be asked of a variable with a name given outright.  Every
subscript, every duplication factor and every bound of a part is a list.
-/

namespace ConditionalAssembly

/-- A variable as the subject of an attribute: a name given outright, and lists
that were never resolved for a subscript. -/
structure VariableSymbol.IsPlain (reference : VariableSymbol) : Prop where
  name : ∃ name, reference.name = .basic name
  subscript : ∀ expr ∈ reference.subscript, expr.isResolved = false

/-- The subject of an attribute is plain. -/
def Expr.HasPlainSubject : Expr → Prop
  | .variableAttribute _ reference _ _ => reference.IsPlain
  | _ => True

/-- Every one of some expressions is a list that was never resolved. -/
def AllLists (exprs : List Expr) : Prop :=
  ∀ expr ∈ exprs, expr.isResolved = false

theorem allLists_nil : AllLists [] :=
  nofun

theorem allLists_append {first second : List Expr} :
    AllLists (first ++ second) ↔ AllLists first ∧ AllLists second :=
  List.forall_mem_append

/-- A node as it is before resolution. -/
structure Expr.IsFresh (node : Expr) : Prop where
  untagged : node.domain? = none
  subject : node.HasPlainSubject
  numbers : AllLists node.numbers

/-- Every one of some nodes is as it is before resolution. -/
def AllFresh (nodes : List Expr) : Prop :=
  ∀ node ∈ nodes, node.IsFresh

@[simp]
theorem allFresh_nil : AllFresh [] :=
  nofun

@[simp]
theorem allFresh_cons {node : Expr} {rest : List Expr} :
    AllFresh (node :: rest) ↔ node.IsFresh ∧ AllFresh rest :=
  List.forall_mem_cons

@[simp]
theorem allFresh_append {first second : List Expr} :
    AllFresh (first ++ second) ↔ AllFresh first ∧ AllFresh second :=
  List.forall_mem_append

/-! ## Results of reading -/

/-- Whatever a reader answers with has a property. -/
def Yields {ε α : Type} (result : Except ε α) (property : α → Prop) : Prop :=
  ∀ value, result = .ok value → property value

section Yields

variable {ε α β : Type} {property : α → Prop} {further : β → Prop}

theorem yields_ok {value : α} (holds : property value) :
    Yields (.ok value : Except ε α) property := by
  rintro _ ⟨⟩
  exact holds

theorem yields_error (error : ε) : Yields (.error error : Except ε α) property :=
  nofun

/-- What one reader answers with may be used by the next. -/
theorem Yields.bind {result : Except ε α} {next : α → Except ε β}
    (first : Yields result property) (second : ∀ value, property value → Yields (next value) further) :
    Yields (result >>= next) further := by
  cases result with
  | error error => exact yields_error error
  | ok value => exact second value (first value rfl)

/-- A reader whose answer is not used. -/
theorem yields_bind_error {result : Except ε α} (error : ε) :
    Yields (result >>= fun _ => (.error error : Except ε β)) further := by
  cases result <;> exact yields_error _

end Yields

/-! ## Parts of terms -/

/-- The expressions inside a part of a term are fresh, and those that stand for
numbers are lists. -/
structure PartsFresh (nodes numbers : List Expr) : Prop where
  nodes : AllFresh nodes
  numbers : AllLists numbers

theorem partsFresh_nil : PartsFresh [] [] :=
  ⟨allFresh_nil, allLists_nil⟩

theorem partsFresh_append {firstNodes secondNodes firstNumbers secondNumbers : List Expr} :
    PartsFresh (firstNodes ++ secondNodes) (firstNumbers ++ secondNumbers) ↔
      PartsFresh firstNodes firstNumbers ∧ PartsFresh secondNodes secondNumbers := by
  constructor
  · rintro ⟨nodes, numbers⟩
    rcases allFresh_append.mp nodes with ⟨first, second⟩
    rcases allLists_append.mp numbers with ⟨firstLists, secondLists⟩
    exact ⟨⟨first, firstLists⟩, second, secondLists⟩
  · rintro ⟨⟨first, firstLists⟩, second, secondLists⟩
    exact ⟨allFresh_append.mpr ⟨first, second⟩, allLists_append.mpr ⟨firstLists, secondLists⟩⟩

/-- A list that stands for a number is fresh when its nodes are. -/
theorem partsFresh_number {expr : Expr} (fresh : AllFresh (expr.nodes true))
    (isList : expr.isResolved = false) : PartsFresh (nodesOfOption true (some expr)) [expr] where
  nodes := fresh
  numbers := by simpa [AllLists] using isList

/-- A term without parts is fresh as long as it has no domain. -/
theorem allFresh_leaf {node : Expr} (untagged : node.domain? = none)
    (subject : node.HasPlainSubject) (numbers : node.numbers = []) : AllFresh [node] := by
  apply allFresh_cons.mpr
  constructor
  · exact ⟨untagged, subject, numbers ▸ allLists_nil⟩
  · exact allFresh_nil

theorem allFresh_variableTerm {reference : VariableSymbol} :
    AllFresh ((Expr.variableTerm reference none).nodes true) ↔
      PartsFresh (reference.nodes true) reference.numbers := by
  constructor
  · intro fresh
    exact ⟨(allFresh_cons.mp fresh).2, (allFresh_cons.mp fresh).1.numbers⟩
  · intro fresh
    exact allFresh_cons.mpr ⟨⟨rfl, trivial, fresh.numbers⟩, fresh.nodes⟩

theorem allFresh_string {term : StringTerm} {range : Range} :
    AllFresh ((Expr.string term range none).nodes true) ↔
      PartsFresh (term.nodes true) term.numbers := by
  constructor
  · intro fresh
    exact ⟨(allFresh_cons.mp fresh).2, (allFresh_cons.mp fresh).1.numbers⟩
  · intro fresh
    exact allFresh_cons.mpr ⟨⟨rfl, trivial, fresh.numbers⟩, fresh.nodes⟩

theorem allFresh_variableAttribute {kind : Attribute} {reference : VariableSymbol}
    {range : Range} :
    AllFresh ((Expr.variableAttribute kind reference range none).nodes true) ↔
      reference.IsPlain ∧ AllFresh (reference.nodes true) := by
  constructor
  · intro fresh
    exact ⟨(allFresh_cons.mp fresh).1.subject, (allFresh_cons.mp fresh).2⟩
  · rintro ⟨plain, fresh⟩
    exact allFresh_cons.mpr ⟨⟨rfl, plain, allLists_nil⟩, fresh⟩

theorem allFresh_unresolved {fragments : List Expr} {range : Range} :
    AllFresh ((Expr.unresolved fragments range).nodes true) ↔
      AllFresh (nodesOfEach true fragments) := by
  constructor
  · intro fresh
    exact (allFresh_cons.mp fresh).2
  · intro fresh
    exact allFresh_cons.mpr ⟨⟨rfl, trivial, allLists_nil⟩, fresh⟩

namespace Reader

/-! ## Terms and arguments -/

/-- The term that may go on has only fresh nodes. -/
def PendingFresh (pending : Option Term) : Prop :=
  ∀ term ∈ pending, AllFresh (term.fragment.nodes true)

theorem pendingFresh_none : PendingFresh none := by
  simp [PendingFresh]

theorem pendingFresh_some {term : Term} :
    PendingFresh (some term) ↔ AllFresh (term.fragment.nodes true) := by
  simp [PendingFresh]

/-- The nodes of some fragments are fresh. -/
abbrev FragmentsFresh (fragments : List Expr) : Prop :=
  AllFresh (nodesOfEach true fragments)

theorem fragmentsFresh_cons {fragment : Expr} {rest : List Expr}
    (first : AllFresh (fragment.nodes true)) (others : FragmentsFresh rest) :
    FragmentsFresh (fragment :: rest) :=
  allFresh_append.mpr ⟨first, others⟩

theorem fragmentsFresh_flush {pending : Option Term} (fresh : PendingFresh pending)
    {fragments : List Expr} (others : FragmentsFresh fragments) :
    FragmentsFresh (flush pending fragments) := by
  cases pending with
  | none => exact others
  | some term => exact fragmentsFresh_cons (pendingFresh_some.mp fresh) others

/-- Arguments are lists of fresh fragments. -/
abbrev ArgumentsFresh (arguments : List Expr) : Prop :=
  PartsFresh (nodesOfEach true arguments) arguments

/-- The expressions inside a reference to a variable are as they are before resolution. -/
abbrev ReferenceFresh (reference : VariableSymbol) : Prop :=
  PartsFresh (reference.nodes true) reference.numbers

/-- The expressions inside a chain are as they are before resolution. -/
abbrev ChainFresh (chain : Chain) : Prop :=
  PartsFresh (nodesOfChain true chain) (numbersOfChain chain)

/-- The bounds of a selection are as they are before resolution. -/
abbrev SelectionFresh (selection : Selection) : Prop :=
  PartsFresh (selection.nodes true) selection.numbers

theorem selectionFresh_whole : SelectionFresh .whole :=
  partsFresh_nil

theorem argument_eq (fragments : List Expr) (ending : PlacedToken) :
    argument fragments ending =
      .unresolved fragments (Grammar.argumentRange fragments ending) := by
  cases fragments with
  | nil => rfl
  | cons first rest =>
      simp only [argument, List.head?_cons, List.getLast?_eq_some_getLast (List.cons_ne_nil _ _)]
      rfl

theorem isResolved_argument (fragments : List Expr) (ending : PlacedToken) :
    (argument fragments ending).isResolved = false := by
  rw [argument_eq, Expr.isResolved]

theorem allFresh_argument {fragments : List Expr} (fresh : FragmentsFresh fragments)
    (ending : PlacedToken) : AllFresh ((argument fragments ending).nodes true) := by
  rw [argument_eq]
  exact allFresh_unresolved.mpr fresh

/-- An argument is a list that may stand for a number. -/
theorem partsFresh_argument {fragments : List Expr} (fresh : FragmentsFresh fragments)
    (ending : PlacedToken) :
    PartsFresh (nodesOfOption true (some (argument fragments ending)))
      [argument fragments ending] :=
  partsFresh_number (allFresh_argument fresh ending) (isResolved_argument fragments ending)

theorem argumentsFresh_nil : ArgumentsFresh [] :=
  partsFresh_nil

theorem ArgumentsFresh.cons {fragments rest : List Expr} (fresh : FragmentsFresh fragments)
    (others : ArgumentsFresh rest) (ending : PlacedToken) :
    ArgumentsFresh (argument fragments ending :: rest) :=
  partsFresh_append.mpr ⟨partsFresh_argument fresh ending, others⟩

/-- The subscript a variable is given consists of fresh lists. -/
theorem argumentsFresh_withSubscript (reference : VariableSymbol) (group : Contents)
    {arguments : List Expr} (fresh : ArgumentsFresh arguments) (close : PlacedToken) :
    ArgumentsFresh (withSubscript reference group arguments close).subscript := by
  unfold withSubscript
  dsimp only
  split
  next => exact argumentsFresh_nil
  next => exact fresh

theorem referenceFresh_withSubscript {reference : VariableSymbol}
    (fresh : ReferenceFresh reference) (group : Contents) {arguments : List Expr}
    (others : ArgumentsFresh arguments) (close : PlacedToken) :
    ReferenceFresh (withSubscript reference group arguments close) := by
  have subscript := argumentsFresh_withSubscript reference group others close
  rcases reference with ⟨name, old, range⟩
  exact partsFresh_append.mpr ⟨(partsFresh_append.mp fresh).1, subscript⟩

theorem isPlain_withSubscript {reference : VariableSymbol} (plain : reference.IsPlain)
    (group : Contents) {arguments : List Expr} (others : ArgumentsFresh arguments)
    (close : PlacedToken) : (withSubscript reference group arguments close).IsPlain where
  name := plain.name
  subscript := (argumentsFresh_withSubscript reference group others close).numbers

/-- The nodes inside a plain subject stay fresh when it is given a subscript. -/
theorem allFresh_withSubscript {reference : VariableSymbol} (plain : reference.IsPlain)
    (group : Contents) {arguments : List Expr} (others : ArgumentsFresh arguments)
    (close : PlacedToken) :
    AllFresh ((withSubscript reference group arguments close).nodes true) := by
  have subscript := (argumentsFresh_withSubscript reference group others close).nodes
  rcases reference with ⟨name, old, range⟩
  rcases plain.name with ⟨word, rfl⟩
  exact allFresh_append.mpr ⟨allFresh_nil, subscript⟩

theorem isPlain_basicVariable (name : String) (start : Nat) (placed : PlacedToken) :
    (basicVariable name start placed).IsPlain :=
  ⟨⟨name, rfl⟩, nofun⟩

theorem referenceFresh_basicVariable (name : String) (start : Nat) (placed : PlacedToken) :
    ReferenceFresh (basicVariable name start placed) :=
  partsFresh_nil

end Reader

/-! ## Quoted text -/

namespace Chain

theorem partsFresh_prependText (text : String) {chain : Chain}
    (fresh : Reader.ChainFresh chain) : Reader.ChainFresh (prependText text chain) := by
  unfold prependText
  split <;> exact fresh

/-- The variables in a quoted text have no subscripts. -/
theorem chainFresh_ofQuoted (column : Nat) (text : List Char) :
    Reader.ChainFresh (ofQuoted column text) := by
  fun_induction ofQuoted column text with
  | case1 => exact partsFresh_nil
  | case2 | case3 | case4 | case6 | case9 =>
      rename_i ih
      exact partsFresh_prependText _ ih
  | case5 | case7 | case8 =>
      rename_i ih
      exact ih

end Chain

/-! ## Reading -/

namespace Reader

theorem yields_flush_cons {pending : Option Term} (fresh : PendingFresh pending) {fragment : Expr}
    (own : AllFresh (fragment.nodes true)) {others : Except ReadError (List Expr)}
    (further : Yields others FragmentsFresh) :
    Yields (do return flush pending (fragment :: (← others))) FragmentsFresh :=
  further.bind fun _ rest =>
    yields_ok (fragmentsFresh_flush fresh (fragmentsFresh_cons own rest))

/-- Fragments read behind a term that nothing extends. -/
theorem yields_flush {pending : Option Term} (fresh : PendingFresh pending)
    {others : Except ReadError (List Expr)} (further : Yields others FragmentsFresh) :
    Yields (do return flush pending (← others)) FragmentsFresh :=
  further.bind fun _ rest => yields_ok (fragmentsFresh_flush fresh rest)

mutual

theorem yields_readRun :
    ∀ (run : Run) {pending : Option Term}, PendingFresh pending →
      Yields (readRun pending run) FragmentsFresh
  | .nil, _, fresh => by
      rw [readRun.eq_def]
      exact yields_ok (fragmentsFresh_flush fresh allFresh_nil)
  | .group opener contents rest, pending, fresh => by
      have readRest {pending : Option Term} (fresh : PendingFresh pending) :=
        yields_readRun rest fresh
      rw [readRun.eq_def]
      dsimp only
      split
      next reference _ =>
        have inner : ReferenceFresh reference :=
          allFresh_variableTerm.mp (pendingFresh_some.mp fresh)
        refine (yields_readArguments contents).bind fun answer arguments => ?_
        have extended := referenceFresh_withSubscript inner contents arguments answer.2
        refine (readRest pendingFresh_none).bind fun _ others => yields_ok ?_
        exact fragmentsFresh_cons (allFresh_variableTerm.mpr extended) others
      next kind reference range _ =>
        have plain : reference.IsPlain :=
          (allFresh_variableAttribute.mp (pendingFresh_some.mp fresh)).1
        refine (yields_readArguments contents).bind fun answer arguments => ?_
        have extended := isPlain_withSubscript plain contents arguments answer.2
        have inner := allFresh_withSubscript plain contents arguments answer.2
        refine (readRest pendingFresh_none).bind fun _ others => yields_ok ?_
        exact fragmentsFresh_cons (allFresh_variableAttribute.mpr ⟨extended, inner⟩) others
      next duplication chain start _ _ =>
        have inner := allFresh_string.mp (pendingFresh_some.mp fresh)
        refine (yields_readSelection contents).bind fun answer selection => ?_
        have extended := partsFresh_append.mpr ⟨(partsFresh_append.mp inner).1, selection⟩
        refine (readRest pendingFresh_none).bind fun _ others => yields_ok ?_
        exact fragmentsFresh_cons (allFresh_string.mpr extended) others
      next =>
        split
        next =>
          refine (yields_readName contents).bind fun answer chain => ?_
          apply yields_flush fresh
          apply readRest
          apply pendingFresh_some.mpr
          exact allFresh_variableTerm.mpr (partsFresh_append.mpr ⟨chain, partsFresh_nil⟩)
        next =>
          refine (yields_readList contents).bind fun answer fragments => ?_
          apply yields_flush fresh
          apply readRest
          exact pendingFresh_some.mpr (allFresh_unresolved.mpr fragments)
  | .token placed rest, pending, fresh => by
      have readRest {pending : Option Term} (fresh : PendingFresh pending) :=
        yields_readRun rest fresh
      have readOthers := readRest pendingFresh_none
      rw [readRun.eq_def]
      dsimp only
      cases token : placed.token with
      | integer value =>
          dsimp only
          split
          next =>
            refine yields_flush_cons fresh ?_ readOthers
            exact allFresh_leaf rfl trivial rfl
          next => exact yields_error _
      | plus | minus | star | slash | dot | identifier name =>
          refine yields_flush_cons fresh ?_ readOthers
          exact allFresh_leaf rfl trivial rfl
      | attributeOf kind ofVariable name =>
          cases ofVariable with
          | false =>
              refine yields_flush_cons fresh ?_ readOthers
              exact allFresh_leaf rfl trivial rfl
          | true =>
              have plain := isPlain_basicVariable name (placed.start + 2) placed
              apply yields_flush fresh
              apply readRest
              apply pendingFresh_some.mpr
              exact allFresh_variableAttribute.mpr ⟨plain, allFresh_nil⟩
      | variableName name =>
          have reference := referenceFresh_basicVariable name placed.start placed
          apply yields_flush fresh
          apply readRest
          exact pendingFresh_some.mpr (allFresh_variableTerm.mpr reference)
      | string raw =>
          have chain := Chain.chainFresh_ofQuoted (placed.start + 1) raw.toList
          dsimp only
          split
          next fragments range _ =>
            have factor := partsFresh_number (pendingFresh_some.mp fresh) rfl
            have text := partsFresh_append.mpr ⟨factor, chain⟩
            apply readRest
            apply pendingFresh_some.mpr
            exact allFresh_string.mpr (partsFresh_append.mpr ⟨text, selectionFresh_whole⟩)
          next =>
            have text := partsFresh_append.mpr ⟨partsFresh_nil, chain⟩
            apply yields_flush fresh
            apply readRest
            apply pendingFresh_some.mpr
            exact allFresh_string.mpr (partsFresh_append.mpr ⟨text, selectionFresh_whole⟩)
      | createdName | openParen | closeParen | comma => exact yields_error _

theorem yields_readList :
    ∀ contents : Contents, Yields (readList contents) fun answer => FragmentsFresh answer.1
  | .last run (some close) => by
      rw [readList]
      exact (yields_readRun run pendingFresh_none).bind fun _ fragments => yields_ok fragments
  | .last run none => by
      rw [readList]
      exact yields_bind_error _
  | .comma run placed _ => by
      rw [readList]
      exact yields_bind_error _

theorem yields_readArguments :
    ∀ contents : Contents, Yields (readArguments contents) fun answer => ArgumentsFresh answer.1
  | .last run (some close) => by
      rw [readArguments]
      refine (yields_readRun run pendingFresh_none).bind fun _ fragments => yields_ok ?_
      exact ArgumentsFresh.cons fragments argumentsFresh_nil close
  | .last run none => by
      rw [readArguments]
      exact yields_bind_error _
  | .comma run placed rest => by
      rw [readArguments]
      refine (yields_readRun run pendingFresh_none).bind fun _ fragments => ?_
      refine (yields_readArguments rest).bind fun _ more => yields_ok ?_
      exact ArgumentsFresh.cons fragments more placed

theorem yields_readSelection :
    ∀ contents : Contents,
      Yields (readSelection contents) fun answer => SelectionFresh answer.1
  | .last run (some close) => by
      rw [readSelection]
      exact yields_bind_error _
  | .last run none => by
      rw [readSelection]
      exact yields_bind_error _
  | .comma run placed rest => by
      rw [readSelection]
      refine (yields_readRun run pendingFresh_none).bind fun _ fragments => ?_
      have start := partsFresh_argument fragments placed
      dsimp only
      split
      next after _ =>
        have closed : Yields (closing after) fun _ => True := fun _ _ => trivial
        exact closed.bind fun _ _ => yields_ok (partsFresh_append.mpr ⟨start, partsFresh_nil⟩)
      next =>
        refine (yields_readList rest).bind fun answer others => yields_ok ?_
        exact partsFresh_append.mpr ⟨start, partsFresh_argument others answer.2⟩

theorem yields_readName :
    ∀ contents : Contents, Yields (readName contents) fun answer => ChainFresh answer.1
  | .last run (some close) => by
      rw [readName]
      exact (yields_readPieces run _).bind fun _ chain => yields_ok chain
  | .last run none => by
      rw [readName]
      exact yields_bind_error _
  | .comma run placed _ => by
      rw [readName]
      exact yields_bind_error _

theorem yields_readPieces :
    ∀ (run : Run) (behind : Option Nat), Yields (readPieces behind run) ChainFresh
  | .nil, _ => by
      rw [readPieces]
      exact yields_ok partsFresh_nil
  | .group opener _ _, _ => by
      rw [readPieces]
      exact yields_error _
  | .token placed rest, behind => by
      have readRest (behind : Option Nat) := yields_readPieces rest behind
      rw [readPieces]
      cases token : placed.token with
      | identifier name | integer value =>
          exact (readRest _).bind fun _ others => yields_ok others
      | dot =>
          dsimp only
          split
          next => exact readRest none
          next => exact (readRest _).bind fun _ others => yields_ok others
      | variableName name =>
          have plain := referenceFresh_basicVariable name placed.start placed
          dsimp only
          split
          next opener contents after =>
            split
            next =>
              refine (yields_readArguments contents).bind fun answer arguments => ?_
              have extended := referenceFresh_withSubscript plain contents arguments answer.2
              refine (yields_readPieces after _).bind fun _ others => yields_ok ?_
              exact partsFresh_append.mpr ⟨extended, others⟩
            next => exact yields_error _
          next =>
            refine (readRest _).bind fun _ others => yields_ok ?_
            exact partsFresh_append.mpr ⟨plain, others⟩
      | plus | minus | star | slash | attributeOf _ _ _ | string _ | createdName | openParen
      | closeParen | comma => exact yields_error _

end

theorem yields_readSource (contents : Contents) : Yields (readSource contents) FragmentsFresh := by
  unfold readSource
  split
  next run => exact yields_readRun run pendingFresh_none
  next => exact yields_bind_error _
  next => exact yields_bind_error _

end Reader

/-- Whatever is read from a source has only fresh nodes, also inside the
subjects of attributes. -/
theorem Expr.allFresh_of_read {source : String} {expr : Expr} {subjects : Bool}
    (read : Expr.read source = .ok expr) : AllFresh (expr.nodes subjects) := by
  have tokens : Yields (Token.listOf source) fun _ => True := fun _ _ => trivial
  have whole : Yields (Expr.read source) fun expr => AllFresh (expr.nodes true) := by
    refine tokens.bind fun tokens _ => ?_
    split
    next fragments readSource =>
      have fresh := Reader.yields_readSource _ fragments readSource
      exact yields_ok (allFresh_unresolved.mpr fresh)
    next => exact yields_error _
  have everywhere := whole expr read
  cases subjects with
  | true => exact everywhere
  | false => exact fun node outside => everywhere node (Expr.nodes_subset outside)

end ConditionalAssembly
