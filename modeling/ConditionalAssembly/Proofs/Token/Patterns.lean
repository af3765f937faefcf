import Mathlib.Computability.Language
import ConditionalAssembly.Proofs.Token.Words

/-!
# The patterns of tokens

A kind of token is given by the language of its spellings and by what a token
of the kind holds when it has some spelling.  The languages are put together
from single characters by sequence, choice and repetition, without regard to
how a text is scanned.

No text is a spelling of two kinds: `Pattern.eq_of_mem`.
-/

namespace ConditionalAssembly.Token

open ConditionalAssembly.Text
open scoped Computability

/-! ## Languages -/

/-- The texts that are one character of some kind. -/
def single (kind : Char → Bool) : Language Char :=
  {text | ∃ c, kind c ∧ text = [c]}

/-- The names. -/
def nameText : Language Char :=
  single isNameStart * (single isNameChar)∗

/-- The texts that may stand between quotes, where a quote is written twice. -/
def quotedText : Language Char :=
  (single (· != '\'') + {['\'', '\'']})∗

/-- The letters of attributes, in either case. -/
def attributeLetters : List Char :=
  ['T', 'L', 'S', 'I', 'K', 'N', 'D', 'O', 't', 'l', 's', 'i', 'k', 'n', 'd', 'o']

/-- The characters that are tokens by themselves. -/
def marks : List Char :=
  ['+', '-', '*', '/', '.', '(', ')', ',']

/-- An attribute may start with the character. -/
def isAttributeLetter (c : Char) : Bool :=
  attributeLetters.contains c

/-- The character is a token by itself. -/
def isMark (c : Char) : Bool :=
  marks.contains c

/-- The kinds of tokens. -/
inductive Pattern where
  | integer
  | string
  | variableName
  | createdName
  | attributeOf
  | identifier
  | mark
  deriving DecidableEq

namespace Pattern

/-- The spellings of a kind of token. -/
def language : Pattern → Language Char
  | .integer => single Char.isDigit * (single Char.isDigit)∗
  | .string => {['\'']} * quotedText * {['\'']}
  | .variableName => {['&']} * nameText
  | .createdName => {['&', '(']}
  | .attributeOf => single isAttributeLetter * {['\'']} * (1 + {['&']}) * nameText
  | .identifier => nameText
  | .mark => single isMark

/-- The token of a kind that has some spelling.  A number may be too great for one. -/
def token? : Pattern → List Char → Option Token
  | .integer, spelling =>
      if Decimal.value spelling ≤ maxInteger then some (.integer (Decimal.value spelling)) else none
  | .string, spelling => some (.string (String.ofList spelling.tail.dropLast))
  | .variableName, spelling => some (.variableName (nameOf spelling.tail))
  | .createdName, _ => some .createdName
  | .attributeOf, spelling =>
      (spelling.head?.bind Attribute.ofLetter?).map fun kind =>
        match spelling.drop 2 with
        | '&' :: name => .attributeOf kind true (nameOf name)
        | name => .attributeOf kind false (nameOf name)
  | .identifier, spelling => some (.identifier (nameOf spelling))
  | .mark, spelling => spelling.head?.bind ofChar?

end Pattern

/-! ## Single characters -/

theorem exists_ofLetter? {c : Char} (letter : isAttributeLetter c) :
    ∃ kind, Attribute.ofLetter? c = some kind := by
  have each : attributeLetters.all fun c => (Attribute.ofLetter? c).isSome := by decide
  have found := List.all_eq_true.mp each c (List.contains_iff_mem.mp letter)
  exact Option.isSome_iff_exists.mp found

theorem exists_ofChar? {c : Char} (single : isMark c) : ∃ found, ofChar? c = some found := by
  have each : marks.all fun c => (ofChar? c).isSome := by decide
  have found := List.all_eq_true.mp each c (List.contains_iff_mem.mp single)
  exact Option.isSome_iff_exists.mp found

theorem isMark_of_ofChar? {c : Char} {found : Token} (isToken : ofChar? c = some found) :
    isMark c := by
  unfold ofChar? at isToken
  split at isToken <;> cases isToken <;> decide

/-! ## What belongs to the languages -/

theorem mem_repeated {kind : Char → Bool} {text : List Char} :
    text ∈ (single kind)∗ ↔ text.all kind := by
  rw [Language.mem_kstar]
  constructor
  · rintro ⟨parts, rfl, each⟩
    rw [List.all_flatten, List.all_eq_true]
    intro part isPart
    obtain ⟨c, isKind, rfl⟩ := each part isPart
    simpa using isKind
  · intro all
    refine ⟨text.map fun c => [c], by simp [← List.flatMap_def], ?_⟩
    intro part isPart
    obtain ⟨c, isChar, rfl⟩ := List.mem_map.mp isPart
    exact ⟨c, List.all_eq_true.mp all c isChar, rfl⟩

theorem mem_single_mul_repeated {first further : Char → Bool} {text : List Char} :
    text ∈ single first * (single further)∗ ↔ ∃ c cs, text = c :: cs ∧ first c ∧ cs.all further := by
  rw [Language.mem_mul]
  constructor
  · rintro ⟨_, ⟨c, isFirst, rfl⟩, cs, repeated, rfl⟩
    exact ⟨c, cs, rfl, isFirst, mem_repeated.mp repeated⟩
  · rintro ⟨c, cs, rfl, isFirst, all⟩
    exact ⟨[c], ⟨c, isFirst, rfl⟩, cs, mem_repeated.mpr all, rfl⟩

theorem mem_nameText {text : List Char} : text ∈ nameText ↔ isName text := by
  rw [nameText, mem_single_mul_repeated]
  cases text with
  | nil => simp [isName]
  | cons c cs => simp [isName]

/-- A quoted text goes on behind what may stand between quotes. -/
theorem continues_of_mem_quotedText {text : List Char} (quoted : text ∈ quotedText) :
    Continues text := by
  obtain ⟨parts, rfl, each⟩ := Language.mem_kstar.mp quoted
  induction parts with
  | nil => exact continues_nil
  | cons part rest ih =>
      obtain ⟨first, others⟩ := List.forall_mem_cons.mp each
      have further := ih others (Language.join_mem_kstar others)
      rcases (Language.mem_add _ _ _).mp first with ⟨c, noQuote, rfl⟩ | pair
      · exact (continues_char (by simpa using noQuote)).append further
      · cases Set.mem_singleton_iff.mp pair
        exact continues_quotes.append further

theorem nil_mem_quotedText : [] ∈ quotedText :=
  Language.nil_mem_kstar _

theorem cons_mem_quotedText {c : Char} (noQuote : c ≠ '\'') {text : List Char}
    (quoted : text ∈ quotedText) : c :: text ∈ quotedText := by
  obtain ⟨parts, rfl, each⟩ := Language.mem_kstar.mp quoted
  refine Language.mem_kstar.mpr ⟨[c] :: parts, rfl, List.forall_mem_cons.mpr ⟨?_, each⟩⟩
  exact .inl ⟨c, by simpa using noQuote, rfl⟩

theorem pair_mem_quotedText {text : List Char} (quoted : text ∈ quotedText) :
    '\'' :: '\'' :: text ∈ quotedText := by
  obtain ⟨parts, rfl, each⟩ := Language.mem_kstar.mp quoted
  refine Language.mem_kstar.mpr ⟨['\'', '\''] :: parts, rfl, List.forall_mem_cons.mpr ⟨?_, each⟩⟩
  exact .inr rfl

/-- What is found behind a quote is a quoted text, or else everything there is one. -/
theorem mem_quotedText_of_quoted? (cs : List Char) :
    match quoted? cs with
    | some (raw, _) => raw ∈ quotedText
    | none => cs ∈ quotedText := by
  fun_induction quoted? cs with
  | case1 => exact nil_mem_quotedText
  | case2 cs ih =>
      cases found : quoted? cs <;> rw [found] at ih <;> exact pair_mem_quotedText ih
  | case3 cs _ => exact nil_mem_quotedText
  | case4 c cs _ noQuote ih =>
      have other : c ≠ '\'' := by
        rintro rfl
        exact noQuote rfl
      cases found : quoted? cs <;> rw [found] at ih <;> exact cons_mem_quotedText other ih

namespace Pattern

theorem mem_integer {text : List Char} :
    text ∈ integer.language ↔ ∃ c cs, text = c :: cs ∧ c.isDigit ∧ cs.all Char.isDigit :=
  mem_single_mul_repeated

theorem mem_string {text : List Char} :
    text ∈ string.language ↔ ∃ raw ∈ quotedText, text = '\'' :: (raw ++ ['\'']) := by
  constructor
  · rintro ⟨_, ⟨_, rfl, raw, quoted, rfl⟩, _, rfl, rfl⟩
    exact ⟨raw, quoted, rfl⟩
  · rintro ⟨raw, quoted, rfl⟩
    exact ⟨'\'' :: raw, ⟨['\''], rfl, raw, quoted, rfl⟩, ['\''], rfl, rfl⟩

theorem mem_variableName {text : List Char} :
    text ∈ variableName.language ↔ ∃ name, isName name ∧ text = '&' :: name := by
  constructor
  · rintro ⟨_, rfl, name, named, rfl⟩
    exact ⟨name, mem_nameText.mp named, rfl⟩
  · rintro ⟨name, valid, rfl⟩
    exact ⟨['&'], rfl, name, mem_nameText.mpr valid, rfl⟩

theorem mem_createdName {text : List Char} :
    text ∈ createdName.language ↔ text = ['&', '('] :=
  Iff.rfl

/-- The letter and the quote of an attribute, the ampersand if there is one, and a name. -/
theorem mem_attributeOf {text : List Char} :
    text ∈ attributeOf.language ↔
      ∃ c name, isAttributeLetter c ∧ isName name ∧
        (text = c :: '\'' :: name ∨ text = c :: '\'' :: '&' :: name) := by
  constructor
  · rintro ⟨_, ⟨_, ⟨_, ⟨c, letter, rfl⟩, _, rfl, rfl⟩, ampersand, choice, rfl⟩, name, named, rfl⟩
    refine ⟨c, name, letter, mem_nameText.mp named, ?_⟩
    rcases choice with rfl | rfl
    · exact .inl rfl
    · exact .inr rfl
  · rintro ⟨c, name, letter, valid, rfl | rfl⟩
    · exact ⟨[c, '\''], ⟨[c, '\''], ⟨[c], ⟨c, letter, rfl⟩, ['\''], rfl, rfl⟩, [], .inl rfl, rfl⟩,
        name, mem_nameText.mpr valid, rfl⟩
    · exact ⟨[c, '\'', '&'], ⟨[c, '\''], ⟨[c], ⟨c, letter, rfl⟩, ['\''], rfl, rfl⟩, ['&'],
        .inr rfl, rfl⟩, name, mem_nameText.mpr valid, rfl⟩

theorem mem_identifier {text : List Char} : text ∈ identifier.language ↔ isName text :=
  mem_nameText

theorem mem_mark {text : List Char} : text ∈ mark.language ↔ ∃ c, isMark c ∧ text = [c] :=
  Iff.rfl

/-! ## First characters -/

/-- The kinds of tokens that may start with a character. -/
def startingWith (c : Char) : List Pattern :=
  if c.isDigit then [integer]
  else if c = '\'' then [string]
  else if c = '&' then [variableName, createdName]
  else if isNameStart c then [attributeOf, identifier]
  else if isMark c then [mark]
  else []

theorem startingWith_of_isNameStart {c : Char} (start : isNameStart c) :
    startingWith c = [attributeOf, identifier] := by
  have noQuote : c ≠ '\'' := by
    rintro rfl
    exact absurd start (by decide)
  have noAmpersand : c ≠ '&' := by
    rintro rfl
    exact absurd start (by decide)
  simp [startingWith, isDigit_eq_false_of_isNameStart start, noQuote, noAmpersand, start]

theorem isNameStart_of_isAttributeLetter {c : Char} (letter : isAttributeLetter c) :
    isNameStart c := by
  have each : attributeLetters.all isNameStart := by decide
  exact List.all_eq_true.mp each c (List.contains_iff_mem.mp letter)

theorem startingWith_of_isMark {c : Char} (single : isMark c) : startingWith c = [mark] := by
  have each : marks.all fun c => startingWith c = [mark] := by decide
  exact of_decide_eq_true (List.all_eq_true.mp each c (List.contains_iff_mem.mp single))

theorem isMark_eq_false_of_isNameStart {c : Char} (start : isNameStart c) : isMark c = false := by
  rw [Bool.eq_false_iff]
  intro isMark
  have starts := startingWith_of_isMark isMark
  rw [startingWith_of_isNameStart start] at starts
  cases starts

theorem startingWith_of_isSkipped {c : Char} (skipped : isSkipped c) : startingWith c = [] := by
  simp only [isSkipped, Bool.or_eq_true, beq_iff_eq] at skipped
  rcases skipped with (((rfl | rfl) | rfl) | rfl) | rfl <;> rfl

/-- A spelling has a first character, which tells its kind from most others. -/
theorem exists_start {pattern : Pattern} {text : List Char} (spelled : text ∈ pattern.language) :
    ∃ c cs, text = c :: cs ∧ pattern ∈ startingWith c := by
  cases pattern with
  | integer =>
      obtain ⟨c, cs, rfl, digit, _⟩ := mem_integer.mp spelled
      exact ⟨c, cs, rfl, by simp [startingWith, digit]⟩
  | string =>
      obtain ⟨raw, _, rfl⟩ := mem_string.mp spelled
      exact ⟨_, _, rfl, by decide⟩
  | variableName =>
      obtain ⟨name, _, rfl⟩ := mem_variableName.mp spelled
      exact ⟨_, _, rfl, by decide⟩
  | createdName =>
      cases mem_createdName.mp spelled
      exact ⟨_, _, rfl, by decide⟩
  | attributeOf =>
      obtain ⟨c, name, letter, _, whole⟩ := mem_attributeOf.mp spelled
      have starts := startingWith_of_isNameStart (isNameStart_of_isAttributeLetter letter)
      rcases whole with rfl | rfl <;> exact ⟨_, _, rfl, by simp [starts]⟩
  | identifier =>
      have valid := mem_identifier.mp spelled
      cases text with
      | nil => cases valid
      | cons c cs =>
          have starts := startingWith_of_isNameStart (isNameStart_of_isName valid)
          exact ⟨c, cs, rfl, by simp [starts]⟩
  | mark =>
      obtain ⟨c, single, rfl⟩ := mem_mark.mp spelled
      exact ⟨c, [], rfl, by simp [startingWith_of_isMark single]⟩

theorem mem_startingWith {pattern : Pattern} {text cs : List Char} {c : Char}
    (spelled : text ∈ pattern.language) (front : text <+: c :: cs) :
    pattern ∈ startingWith c := by
  obtain ⟨first, rest, rfl, starts⟩ := exists_start spelled
  cases (List.cons_prefix_cons.mp front).1
  exact starts

theorem not_mem_identifier {text : List Char} (spelled : text ∈ attributeOf.language) :
    text ∉ identifier.language := by
  intro named
  have all := all_of_isName (mem_identifier.mp named)
  have quote : '\'' ∈ text := by
    obtain ⟨c, name, _, _, rfl | rfl⟩ := mem_attributeOf.mp spelled <;> simp
  exact not_mem_of_all all (by decide) quote

theorem not_mem_createdName {text : List Char} (spelled : text ∈ variableName.language) :
    text ∉ createdName.language := by
  intro created
  obtain ⟨name, valid, rfl⟩ := mem_variableName.mp spelled
  cases mem_createdName.mp created
  exact absurd valid (by decide)

/-- A text is a spelling of one kind at most. -/
theorem eq_of_mem {pattern other : Pattern} {text : List Char} (spelled : text ∈ pattern.language)
    (spelledToo : text ∈ other.language) : pattern = other := by
  obtain ⟨c, cs, rfl, starts⟩ := exists_start spelled
  have startsToo := mem_startingWith spelledToo (List.prefix_refl _)
  unfold startingWith at starts startsToo
  split_ifs at starts startsToo
  · rw [List.mem_singleton.mp starts, List.mem_singleton.mp startsToo]
  · rw [List.mem_singleton.mp starts, List.mem_singleton.mp startsToo]
  · rcases List.mem_pair.mp starts with rfl | rfl <;>
      rcases List.mem_pair.mp startsToo with rfl | rfl
    · rfl
    · exact absurd spelledToo (not_mem_createdName spelled)
    · exact absurd spelled (not_mem_createdName spelledToo)
    · rfl
  · rcases List.mem_pair.mp starts with rfl | rfl <;>
      rcases List.mem_pair.mp startsToo with rfl | rfl
    · rfl
    · exact absurd spelledToo (not_mem_identifier spelled)
    · exact absurd spelled (not_mem_identifier spelledToo)
    · rfl
  · rw [List.mem_singleton.mp starts, List.mem_singleton.mp startsToo]
  · cases starts

end Pattern

end ConditionalAssembly.Token
