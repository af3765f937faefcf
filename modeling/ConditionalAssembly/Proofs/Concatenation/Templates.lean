import Mathlib
import ConditionalAssembly.Proofs.Concatenation.Quotation

/-!
# Templates

A template is made up of literal texts and variables.  As a quoted text, the
quotes and ampersands of the literals are doubled, and a period ends the name of
each variable, so no piece is mistaken for a part of its neighbours.  Only the
ampersands of literals stay doubled in what the quoted text evaluates to.
-/

namespace ConditionalAssembly

open Text Chain

namespace Template

/-- A piece of a template: literal text, or a variable by its name. -/
inductive Piece where
  | literal (text : String)
  | reference (name : String)

namespace Piece

/-- A piece as it is written between quotes. -/
def encoded : Piece → List Char
  | .literal text => UnaryOperator.doubled text.toList
  | .reference name => '&' :: (name.toList ++ ['.'])

/-- What stands in a text for the value of a variable: the digits of a number without its sign, `1`
or `0` for a truth value, and a text itself. -/
def written : Value → String
  | .arithmetic word => String.ofList (Nat.toDigits 10 word.toInt.natAbs)
  | .binary true => "1"
  | .binary false => "0"
  | .character text => text

/-- The text a piece stands for. -/
def rendered (store : Store) : Piece → String
  | .literal text =>
      String.ofList (text.toList.flatMap fun c => if c = '&' then ['&', '&'] else [c])
  | .reference name =>
      match store.variableTable[upper name]? with
      | some (.scalar value) => written value
      | _ => ""

/-- The name of a variable is valid, and the variable holds one value. -/
def IsBound (store : Store) : Piece → Prop
  | .literal _ => True
  | .reference name =>
      isName name.toList ∧ ∃ value, store.variableTable[upper name]? = some (.scalar value)

end Piece

/-- A template as a quoted text. -/
def source (pieces : List Piece) : String :=
  quotation (pieces.flatMap Piece.encoded)

/-- The text a template stands for. -/
def rendered (store : Store) (pieces : List Piece) : String :=
  pieces.foldr (fun piece text => piece.rendered store ++ text) ""

/-! ## Pieces between quotes -/

open UnaryOperator in
/-- A quoted text goes on behind literal text whose quotes are doubled. -/
theorem continues_doubled (cs : List Char) : Token.Continues (doubled cs) := by
  induction cs with
  | nil => exact Token.continues_nil
  | cons c cs ih =>
      by_cases quote : c = '\''
      · subst quote
        exact Token.continues_quotes.append ih
      · have single := (Token.continues_char quote).append ih
        rw [doubled]
        split
        · exact (Token.continues_char quote).append single
        · exact single

/-- A name contains no quote. -/
theorem continues_name {name : List Char} (valid : isName name) : Token.Continues name :=
  Token.continues_of_noQuote (not_mem_of_all (all_of_isName valid) (by decide))

theorem Piece.continues_encoded {store : Store} {piece : Piece} (bound : piece.IsBound store) :
    Token.Continues piece.encoded := by
  cases piece with
  | literal text => exact continues_doubled text.toList
  | reference name =>
      have ampersand : Token.Continues ['&'] := Token.continues_char (by decide)
      have period : Token.Continues ['.'] := Token.continues_char (by decide)
      exact ampersand.append ((continues_name bound.1).append period)

/-! ## Pieces from left to right -/

section Renders

variable {store : Store}

open UnaryOperator in
/-- Literal text is rendered with its ampersands doubled. -/
theorem renders_doubled (cs : List Char) :
    Renders store (doubled cs)
      (String.ofList (cs.flatMap fun c => if c = '&' then ['&', '&'] else [c])) := by
  induction cs with
  | nil => exact renders_nil
  | cons c cs ih =>
      rw [List.flatMap_cons, String.ofList_append]
      by_cases quote : c = '\''
      · subst quote
        have quotes : Renders store ['\'', '\''] "'" := fun column rest =>
          ⟨_, Chain.evaluateChain_quotes store column rest⟩
        exact quotes.append ih
      · by_cases ampersand : c = '&'
        · subst ampersand
          have ampersands : Renders store ['&', '&'] "&&" := fun column rest =>
            ⟨_, Chain.evaluateChain_ampersands store column rest⟩
          exact ampersands.append ih
        · rw [doubled, if_neg (by simp [quote, ampersand]), if_neg ampersand]
          exact (renders_char quote ampersand).append ih

theorem Piece.substituted_eq_written (value : Value) : value.substituted = written value := by
  cases value with
  | arithmetic word => rfl
  | binary truth => cases truth <;> rfl
  | character text => rfl

/-- A name with a period behind it is rendered as what is written for the variable's value. -/
theorem renders_reference {name : List Char} (valid : isName name) {value : Value}
    (held : store.value? (nameOf name) [] = some value) :
    Renders store ('&' :: (name ++ ['.'])) (Piece.written value) := by
  intro column rest
  have ends : ('.' :: rest).head?.any isNameChar = false := rfl
  obtain ⟨range, stop, cut⟩ := Chain.ofQuoted_reference valid ends column
  have text : store.text (nameOf name) = Piece.written value := by
    rw [Store.text, held, ← Piece.substituted_eq_written]
    rfl
  refine ⟨stop, ?_⟩
  rw [List.cons_append, List.append_assoc, List.singleton_append, cut,
    Chain.evaluateChain_reference store held, text]
  rfl

theorem Piece.renders_encoded {piece : Piece} (bound : piece.IsBound store) :
    Renders store piece.encoded (piece.rendered store) := by
  cases piece with
  | literal text => exact renders_doubled text.toList
  | reference name =>
      obtain ⟨valid, value, held⟩ := bound
      have found : store.value? (nameOf name.toList) [] = some value := by
        rw [nameOf_toList, Store.value?, held]
        rfl
      have text : Piece.rendered store (.reference name) = written value := by
        simp only [rendered, held]
      rw [text]
      exact renders_reference valid found

end Renders

/-! ## Whole templates -/

theorem continues_pieces {store : Store} {pieces : List Piece}
    (bound : ∀ piece ∈ pieces, piece.IsBound store) :
    Token.Continues (pieces.flatMap Piece.encoded) := by
  induction pieces with
  | nil => exact Token.continues_nil
  | cons piece rest ih =>
      obtain ⟨first, others⟩ := List.forall_mem_cons.mp bound
      exact (Piece.continues_encoded first).append (ih others)

theorem renders_pieces {store : Store} {pieces : List Piece}
    (bound : ∀ piece ∈ pieces, piece.IsBound store) :
    Renders store (pieces.flatMap Piece.encoded) (rendered store pieces) := by
  induction pieces with
  | nil => exact renders_nil
  | cons piece rest ih =>
      obtain ⟨first, others⟩ := List.forall_mem_cons.mp bound
      exact (Piece.renders_encoded first).append (ih others)

/-- A template is evaluated to the text it stands for. -/
theorem calculateSource_template (context : Context) (pieces : List Piece)
    (bound : ∀ piece ∈ pieces, piece.IsBound context.store)
    (fits : (rendered context.store pieces).length ≤ 4064) :
    context.calculateSource .character (source pieces) =
      .ok (.character (rendered context.store pieces), context) := by
  obtain ⟨stop, whole⟩ := renders_pieces bound 1 []
  have evaluated : evaluateChain context.store (Chain.ofQuoted 1 (pieces.flatMap Piece.encoded)) =
      pure (rendered context.store pieces) := by
    rw [← List.append_nil (pieces.flatMap Piece.encoded), whole, Chain.ofQuoted, evaluateChain]
    simp
  exact calculateSource_quotation (continues_pieces bound) context evaluated fits

/-- An ampersand in front of a variable and a period behind it stay what they are, and each variable
is written by its value. -/
theorem calculateSource_template_neighbours :
    let store := ((Store.empty.setVariable "X" (.arithmetic (-5))).setVariable "T"
      (.binary true)).setVariable "S" (.character "it's")
    let context := Context.ofStore store
    let pieces : List Piece := [.literal "it's A&", .reference "x", .literal ".B", .reference "T",
      .reference "s"]
    source pieces = "'it''s A&&&x..B&T.&s.'" ∧
      context.calculateSource .character (source pieces) =
        .ok (.character "it's A&&5.B1it's", context) := by
  intro store context pieces
  have spelled : source pieces = "'it''s A&&&x..B&T.&s.'" := by decide
  have number : store.variableTable[upper "x"]? = some (.scalar (.arithmetic (-5))) := by cbv
  have truth : store.variableTable[upper "T"]? = some (.scalar (.binary true)) := by cbv
  have text : store.variableTable[upper "s"]? = some (.scalar (.character "it's")) := by cbv
  have whole : rendered store pieces = "it's A&&5.B1it's" := by
    simp only [pieces, rendered, List.foldr, Piece.rendered, number, truth, text]
    decide
  have bound : ∀ piece ∈ pieces, piece.IsBound store := by
    have valid : isName ['x'] ∧ isName ['T'] ∧ isName ['s'] := by decide
    simp [pieces, Piece.IsBound, valid, number, truth, text]
  have fits : (rendered store pieces).length ≤ 4064 := by
    rw [whole]
    decide
  exact ⟨spelled, whole ▸ calculateSource_template context pieces bound fits⟩

end Template

end ConditionalAssembly
