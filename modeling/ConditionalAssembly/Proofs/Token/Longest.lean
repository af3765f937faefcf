import Mathlib
import ConditionalAssembly.Proofs.Token.Patterns

/-!
# The longest token at the front of a text

At the front of a text stands a blank, the longest spelling of any kind of
token, or neither.  Scanning tells which of these it is.
-/

namespace ConditionalAssembly.Token

open ConditionalAssembly.Text
open scoped Computability

/-! ## Longest spellings -/

/-- A spelling of a kind stands at the front of a text, and no longer one of any kind does. -/
structure Pattern.IsLongest (pattern : Pattern) (spelling cs : List Char) : Prop where
  spelled : spelling ∈ pattern.language
  front : spelling <+: cs
  longest : ∀ (other : Pattern) (longer : List Char), longer ∈ other.language → longer <+: cs →
    longer.length ≤ spelling.length

/-- A string starts at the front of a text and is still open at its end. -/
def IsOpen (cs : List Char) : Prop :=
  cs ∈ {['\'']} * quotedText

/-- No token can be cut off from a text that is not empty, and nothing is skipped either. -/
inductive Stuck : List Char → Prop where
  /-- Nothing at the front is a spelling of a token. -/
  | unmatched {c : Char} {cs : List Char} :
      isSkipped c = false →
      (∀ (pattern : Pattern) (spelling : List Char), spelling ∈ pattern.language →
        ¬ spelling <+: c :: cs) →
      Stuck (c :: cs)
  /-- What is spelled is a number that no token can hold. -/
  | tooGreat {digits cs : List Char} :
      Pattern.integer.IsLongest digits cs → maxInteger < Decimal.value digits → Stuck cs
  /-- A string is never closed. -/
  | unclosed {cs : List Char} : IsOpen cs → Stuck cs

namespace Pattern.IsLongest

variable {pattern other : Pattern} {spelling longer cs : List Char}

/-- A text has one longest spelling at its front. -/
theorem unique (one : pattern.IsLongest spelling cs) (two : other.IsLongest longer cs) :
    pattern = other ∧ spelling = longer := by
  have sameLength : spelling.length = longer.length :=
    Nat.le_antisymm (two.longest pattern spelling one.spelled one.front)
      (one.longest other longer two.spelled two.front)
  have same : spelling = longer :=
    (List.prefix_of_prefix_length_le one.front two.front sameLength.le).eq_of_length sameLength
  subst same
  exact ⟨Pattern.eq_of_mem one.spelled two.spelled, rfl⟩

/-- A spelling alone is the longest at its front. -/
theorem alone (spelled : spelling ∈ pattern.language) : pattern.IsLongest spelling spelling where
  spelled := spelled
  front := List.prefix_refl _
  longest _ _ _ front := front.length_le

theorem mem_startingWith {c : Char} (longest : pattern.IsLongest spelling (c :: cs)) :
    pattern ∈ startingWith c :=
  Pattern.mem_startingWith longest.spelled longest.front

end Pattern.IsLongest

theorem isOpen_iff {cs : List Char} : IsOpen cs ↔ ∃ text ∈ quotedText, cs = '\'' :: text := by
  constructor
  · rintro ⟨_, rfl, text, quoted, rfl⟩
    exact ⟨text, quoted, rfl⟩
  · rintro ⟨text, quoted, rfl⟩
    exact ⟨['\''], rfl, text, quoted, rfl⟩

/-- What is open starts with a quote. -/
theorem not_isOpen {c : Char} (noQuote : c ≠ '\'') (cs : List Char) : ¬ IsOpen (c :: cs) := by
  intro isOpen
  obtain ⟨text, _, whole⟩ := isOpen_iff.mp isOpen
  exact noQuote (List.cons.inj whole).1

/-- A string is open when no closing quote is found behind its first quote. -/
theorem isOpen_iff_quoted? {cs : List Char} : IsOpen ('\'' :: cs) ↔ quoted? cs = none := by
  rw [isOpen_iff]
  constructor
  · rintro ⟨text, quoted, whole⟩
    cases whole
    simpa [quoted?] using continues_of_mem_quotedText quoted []
  · intro missing
    have quoted := mem_quotedText_of_quoted? cs
    rw [missing] at quoted
    exact ⟨cs, quoted, rfl⟩

/-- A spelling alone is not open. -/
theorem Pattern.not_isOpen_of_mem {pattern : Pattern} {spelling : List Char}
    (spelled : spelling ∈ pattern.language) : ¬ IsOpen spelling := by
  obtain ⟨c, cs, rfl, starts⟩ := Pattern.exists_start spelled
  by_cases quote : c = '\''
  · subst quote
    cases List.mem_singleton.mp starts
    obtain ⟨raw, quoted, whole⟩ := Pattern.mem_string.mp spelled
    cases whole
    rw [isOpen_iff_quoted?, continues_of_mem_quotedText quoted]
    simp [quoted?]
  · exact not_isOpen quote cs

/-! ## What is scanned -/

/-- The letters by which attributes are looked up are those that attributes start with. -/
theorem isAttributeLetter_of_ofLetter? {c : Char} {kind : Attribute}
    (letter : Attribute.ofLetter? c = some kind) : isAttributeLetter c := by
  have same : kind.letter = c.toUpper := by simpa using List.find?_some letter
  by_cases upper : c.isUpper
  · rw [Char.toUpper_eq_of_not_isLower (Char.not_isLower_of_isUpper upper)] at same
    rw [← same]
    cases kind <;> decide
  · have lower : kind.letter.toLower = c := by
      rw [same, Char.toLower_toUpper_eq_toLower, Char.toLower_eq_of_not_isUpper upper]
    rw [← lower]
    cases kind <;> decide

/-- A scan says what is to be done with a text. -/
def Scan.Describes (cs : List Char) : Scan → Prop
  | .blank => ∃ c rest, cs = c :: rest ∧ isSkipped c
  | .token found spelling rest =>
      spelling ++ rest = cs ∧ ¬ IsOpen cs ∧
        ∃ pattern : Pattern, pattern.IsLongest spelling cs ∧ pattern.token? spelling = some found
  | .unreadable _ => Stuck cs

theorem length_le_takeWhile {kind : Char → Bool} {front cs : List Char} (isFront : front <+: cs)
    (all : front.all kind) : front.length ≤ (cs.takeWhile kind).length := by
  obtain ⟨rest, rfl⟩ := isFront
  rw [List.takeWhile_append_of_pos (List.all_eq_true.mp all), List.length_append]
  exact Nat.le_add_right _ _

theorem describes_scanNumber {c : Char} (digit : c.isDigit) (cs : List Char) :
    (scanNumber (c :: cs)).Describes (c :: cs) := by
  have starts : Pattern.startingWith c = [.integer] := by simp [Pattern.startingWith, digit]
  have longest : Pattern.integer.IsLongest ((c :: cs).takeWhile Char.isDigit) (c :: cs) := by
    refine ⟨?_, List.takeWhile_prefix _, ?_⟩
    · rw [List.takeWhile_cons_of_pos digit]
      exact Pattern.mem_integer.mpr ⟨c, _, rfl, digit, List.all_takeWhile⟩
    · intro other longer spelled front
      have kind := Pattern.mem_startingWith spelled front
      rw [starts] at kind
      cases List.mem_singleton.mp kind
      obtain ⟨d, ds, rfl, isDigit, all⟩ := Pattern.mem_integer.mp spelled
      exact length_le_takeWhile front (by simp [isDigit, all])
  have notOpen : ¬ IsOpen (c :: cs) := by
    apply not_isOpen
    rintro rfl
    exact absurd digit (by decide)
  unfold scanNumber
  dsimp only
  split
  next fits => exact ⟨List.takeWhile_append_dropWhile, notOpen, .integer, longest, if_pos fits⟩
  next exceeds => exact Stuck.tooGreat longest (Nat.lt_of_not_le exceeds)

theorem describes_scanString (cs : List Char) : (scanString cs).Describes ('\'' :: cs) := by
  unfold scanString
  split
  next raw rest found =>
    have quoted := mem_quotedText_of_quoted? cs
    rw [found] at quoted
    have whole : '\'' :: raw ++ ['\''] ++ rest = '\'' :: cs := by simp [eq_of_quoted? found]
    refine ⟨whole, by simp [isOpen_iff_quoted?, found], .string, ⟨?_, ⟨rest, whole⟩, ?_⟩, ?_⟩
    · exact Pattern.mem_string.mpr ⟨raw, quoted, rfl⟩
    · intro other longer spelled front
      cases List.mem_singleton.mp (Pattern.mem_startingWith spelled front)
      obtain ⟨text, quotedToo, rfl⟩ := Pattern.mem_string.mp spelled
      obtain ⟨behind, rfl⟩ := (List.cons_prefix_cons.mp front).2
      -- What stands between quotes goes on behind this text, so it is no shorter.
      rw [List.append_assoc, continues_of_mem_quotedText quotedToo] at found
      obtain ⟨parts, _, same⟩ := Option.map_eq_some_iff.mp found
      cases same
      simp
    · simp [Pattern.token?]
  next missing => exact Stuck.unclosed (isOpen_iff_quoted?.mpr missing)

/-- A variable in front of a text has a name, and a created name a parenthesis. -/
theorem spelled_ampersand {pattern : Pattern} {spelling cs : List Char}
    (spelled : spelling ∈ pattern.language) (front : spelling <+: '&' :: cs) :
    (∃ name, isName name ∧ spelling = '&' :: name ∧ name <+: cs) ∨
      spelling = ['&', '('] ∧ cs.head? = some '(' := by
  rcases List.mem_pair.mp (Pattern.mem_startingWith spelled front) with rfl | rfl
  · obtain ⟨name, valid, rfl⟩ := Pattern.mem_variableName.mp spelled
    exact .inl ⟨name, valid, rfl, (List.cons_prefix_cons.mp front).2⟩
  · cases Pattern.mem_createdName.mp spelled
    obtain ⟨rest, rfl⟩ := (List.cons_prefix_cons.mp front).2
    exact .inr ⟨rfl, rfl⟩

theorem isNameStart_of_isPrefix {name cs : List Char} {c : Char} (valid : isName name)
    (front : name <+: c :: cs) : isNameStart c := by
  cases name with
  | nil => cases valid
  | cons n more =>
      cases (List.cons_prefix_cons.mp front).1
      exact isNameStart_of_isName valid

theorem describes_scanVariable (cs : List Char) : (scanVariable cs).Describes ('&' :: cs) := by
  have notOpen (cs : List Char) : ¬ IsOpen ('&' :: cs) := not_isOpen (by decide) cs
  unfold scanVariable
  split
  next cs =>
    refine ⟨rfl, notOpen _, .createdName, ⟨rfl, ⟨cs, rfl⟩, ?_⟩, rfl⟩
    intro other longer spelled front
    rcases spelled_ampersand spelled front with ⟨name, valid, _, isFront⟩ | ⟨rfl, _⟩
    · exact absurd (isNameStart_of_isPrefix valid isFront) (by decide)
    · exact Nat.le_refl _
  next c cs noParenthesis =>
    split
    next start =>
      refine ⟨by simp [List.takeWhile_append_dropWhile], notOpen _, .variableName, ⟨?_, ?_, ?_⟩, rfl⟩
      · exact Pattern.mem_variableName.mpr ⟨_, isName_takeWhile start cs, rfl⟩
      · exact List.cons_prefix_cons.mpr ⟨rfl, List.takeWhile_prefix _⟩
      · intro other longer spelled front
        rcases spelled_ampersand spelled front with ⟨name, valid, rfl, isFront⟩ | ⟨_, opens⟩
        · exact Nat.succ_le_succ (length_le_takeWhile isFront (all_of_isName valid))
        · exact absurd (Option.some.inj opens) noParenthesis
    next noName =>
      refine Stuck.unmatched (by decide) fun pattern spelling spelled front => ?_
      rcases spelled_ampersand spelled front with ⟨name, valid, _, isFront⟩ | ⟨_, opens⟩
      · exact noName (isNameStart_of_isPrefix valid isFront)
      · exact noParenthesis (Option.some.inj opens)
  next =>
    refine Stuck.unmatched (by decide) fun pattern spelling spelled front => ?_
    rcases spelled_ampersand spelled front with ⟨name, valid, _, isFront⟩ | ⟨_, opens⟩
    · rw [List.prefix_nil.mp isFront] at valid
      cases valid
    · cases opens

/-- An attribute starts with its letter and a quote, and goes on with a name or a variable. -/
def BeginsAttribute (c : Char) (cs name : List Char) : Prop :=
  isAttributeLetter c ∧ isName name ∧ ('\'' :: name <+: cs ∨ '\'' :: '&' :: name <+: cs)

/-- What starts like a name is a name or an attribute. -/
theorem spelled_word {pattern : Pattern} {c : Char} {spelling cs : List Char}
    (start : isNameStart c) (spelled : spelling ∈ pattern.language)
    (front : spelling <+: c :: cs) :
    isName spelling ∨ ∃ name, BeginsAttribute c cs name ∧
      (spelling = c :: '\'' :: name ∧ '\'' :: name <+: cs ∨
        spelling = c :: '\'' :: '&' :: name ∧ '\'' :: '&' :: name <+: cs) := by
  have kind := Pattern.mem_startingWith spelled front
  rw [Pattern.startingWith_of_isNameStart start] at kind
  rcases List.mem_pair.mp kind with rfl | rfl
  · right
    obtain ⟨d, name, letter, valid, rfl | rfl⟩ := Pattern.mem_attributeOf.mp spelled
    · obtain ⟨rfl, behind⟩ := List.cons_prefix_cons.mp front
      exact ⟨name, ⟨letter, valid, .inl behind⟩, .inl ⟨rfl, behind⟩⟩
    · obtain ⟨rfl, behind⟩ := List.cons_prefix_cons.mp front
      exact ⟨name, ⟨letter, valid, .inr behind⟩, .inr ⟨rfl, behind⟩⟩
  · exact .inl (Pattern.mem_identifier.mp spelled)

theorem not_isOpen_of_isNameStart {c : Char} (start : isNameStart c) (cs : List Char) :
    ¬ IsOpen (c :: cs) := by
  apply not_isOpen
  rintro rfl
  exact absurd start (by decide)

/-- A name in front of which no attribute begins is an identifier. -/
theorem describes_identifier {c : Char} (start : isNameStart c) {cs : List Char}
    (noAttribute : ∀ name, ¬ BeginsAttribute c cs name) :
    (scanName .identifier [] (c :: cs)).Describes (c :: cs) := by
  refine ⟨List.takeWhile_append_dropWhile, not_isOpen_of_isNameStart start cs, .identifier, ?_, rfl⟩
  refine ⟨Pattern.mem_identifier.mpr (isName_takeWhile start cs), List.takeWhile_prefix _, ?_⟩
  intro other longer spelled front
  rcases spelled_word start spelled front with valid | ⟨name, begins, _⟩
  · exact length_le_takeWhile front (all_of_isName valid)
  · exact absurd begins (noAttribute name)

theorem length_le_one {c : Char} {name cs : List Char} (valid : isName name)
    (front : name <+: c :: '\'' :: cs) : name.length ≤ 1 := by
  rcases name with _ | ⟨d, _ | ⟨e, more⟩⟩
  · exact Nat.zero_le _
  · exact Nat.le_refl _
  · cases (List.cons_prefix_cons.mp (List.cons_prefix_cons.mp front).2).1
    exact absurd (by simp) (not_mem_of_all (all_of_isName valid) (c := '\'') (by decide))

section Attributes

variable {c n : Char} {kind : Attribute} (letter : Attribute.ofLetter? c = some kind)
  (behind : isNameStart n) (cs : List Char)

include letter behind

theorem describes_symbolAttribute :
    (scanName (.attributeOf kind false) [c, '\''] (n :: cs)).Describes (c :: '\'' :: n :: cs) := by
  have isLetter := isAttributeLetter_of_ofLetter? letter
  have start := Pattern.isNameStart_of_isAttributeLetter isLetter
  have noAmpersand : n ≠ '&' := by
    rintro rfl
    exact absurd behind (by decide)
  refine ⟨by simp [List.takeWhile_append_dropWhile], not_isOpen_of_isNameStart start _,
    .attributeOf, ⟨?_, ?_, ?_⟩, ?_⟩
  · exact Pattern.mem_attributeOf.mpr ⟨c, _, isLetter, isName_takeWhile behind cs, .inl rfl⟩
  · exact List.prefix_append_right_inj [c, '\''] |>.mpr (List.takeWhile_prefix _)
  · intro other longer spelled front
    rcases spelled_word start spelled front with
      valid | ⟨name, ⟨_, valid, _⟩, ⟨rfl, isFront⟩ | ⟨_, isFront⟩⟩
    · exact (length_le_one valid front).trans (Nat.le_add_left 1 _)
    · have inside := length_le_takeWhile (List.cons_prefix_cons.mp isFront).2 (all_of_isName valid)
      exact Nat.add_le_add_right inside 2
    · exact absurd (List.cons_prefix_cons.mp (List.cons_prefix_cons.mp isFront).2).1.symm noAmpersand
  · rw [List.takeWhile_cons_of_pos (isNameChar_of_isNameStart behind)]
    simp [Pattern.token?, letter, noAmpersand]

theorem describes_variableAttribute :
    (scanName (.attributeOf kind true) [c, '\'', '&'] (n :: cs)).Describes
      (c :: '\'' :: '&' :: n :: cs) := by
  have isLetter := isAttributeLetter_of_ofLetter? letter
  have start := Pattern.isNameStart_of_isAttributeLetter isLetter
  refine ⟨by simp [List.takeWhile_append_dropWhile], not_isOpen_of_isNameStart start _,
    .attributeOf, ⟨?_, ?_, ?_⟩, ?_⟩
  · exact Pattern.mem_attributeOf.mpr ⟨c, _, isLetter, isName_takeWhile behind cs, .inr rfl⟩
  · exact List.prefix_append_right_inj [c, '\'', '&'] |>.mpr (List.takeWhile_prefix _)
  · intro other longer spelled front
    rcases spelled_word start spelled front with
      valid | ⟨name, ⟨_, valid, _⟩, ⟨_, isFront⟩ | ⟨rfl, isFront⟩⟩
    · exact (length_le_one valid front).trans (Nat.le_add_left 1 _)
    · have ampersand := isNameStart_of_isPrefix valid (List.cons_prefix_cons.mp isFront).2
      exact absurd ampersand (by decide)
    · have inside := length_le_takeWhile
        (List.cons_prefix_cons.mp (List.cons_prefix_cons.mp isFront).2).2 (all_of_isName valid)
      exact Nat.add_le_add_right inside 3
  · simp [Pattern.token?, letter]

end Attributes

theorem describes_scanWord {c : Char} (start : isNameStart c) (cs : List Char) :
    (scanWord c cs).Describes (c :: cs) := by
  unfold scanWord
  split
  next kind n rest letter =>
    split
    next behind => exact describes_variableAttribute letter behind rest
    next noName =>
      refine describes_identifier start ?_
      rintro name ⟨_, valid, isFront | isFront⟩
      · have ampersand := isNameStart_of_isPrefix valid (List.cons_prefix_cons.mp isFront).2
        exact absurd ampersand (by decide)
      · have further := (List.cons_prefix_cons.mp (List.cons_prefix_cons.mp isFront).2).2
        exact noName (isNameStart_of_isPrefix valid further)
  next kind n rest noVariable letter =>
    split
    next behind => exact describes_symbolAttribute letter behind rest
    next noName =>
      refine describes_identifier start ?_
      rintro name ⟨_, valid, isFront | isFront⟩
      · exact noName (isNameStart_of_isPrefix valid (List.cons_prefix_cons.mp isFront).2)
      · obtain ⟨rfl, further⟩ := List.cons_prefix_cons.mp (List.cons_prefix_cons.mp isFront).2
        cases rest with
        | nil =>
            rw [List.prefix_nil.mp further] at valid
            cases valid
        | cons m more => exact noVariable m more rfl rfl
  next noVariable noSymbol =>
    refine describes_identifier start ?_
    rintro name ⟨letter, valid, isFront | isFront⟩
    all_goals
      obtain ⟨kind, isKind⟩ := exists_ofLetter? letter
      obtain ⟨rest, rfl⟩ := isFront
      cases name with
      | nil => cases valid
      | cons n more => exact noSymbol kind _ _ isKind rfl

/-- A mark is the one spelling that starts with its character. -/
theorem describes_mark {c : Char} {cs : List Char} {found : Token} (single : ofChar? c = some found)
    (notOpen : ¬ IsOpen (c :: cs)) : (Scan.token found [c] cs).Describes (c :: cs) := by
  have isMark := isMark_of_ofChar? single
  refine ⟨rfl, notOpen, .mark, ⟨⟨c, isMark, rfl⟩, ⟨cs, rfl⟩, ?_⟩, single⟩
  intro other longer spelled front
  have kind := Pattern.mem_startingWith spelled front
  rw [Pattern.startingWith_of_isMark isMark] at kind
  cases List.mem_singleton.mp kind
  obtain ⟨d, _, rfl⟩ := Pattern.mem_mark.mp spelled
  exact Nat.le_refl _

theorem stuck_of_startingWith_eq_nil {c : Char} {cs : List Char} (shown : isSkipped c = false)
    (nothing : Pattern.startingWith c = []) : Stuck (c :: cs) := by
  refine .unmatched shown fun pattern spelling spelled front => ?_
  have kind := Pattern.mem_startingWith spelled front
  rw [nothing] at kind
  cases kind

/-- A scan says what is to be done with any text that is not empty. -/
theorem describes_scan (c : Char) (cs : List Char) : (scan c cs).Describes (c :: cs) := by
  unfold scan
  split
  next skipped => exact ⟨c, cs, rfl, skipped⟩
  next shown =>
    split
    next digit => exact describes_scanNumber digit cs
    next noDigit =>
      split
      next quote =>
        subst quote
        exact describes_scanString cs
      next noQuote =>
        split
        next ampersand =>
          subst ampersand
          exact describes_scanVariable cs
        next noAmpersand =>
          split
          next start => exact describes_scanWord start cs
          next noName =>
            split
            next found single => exact describes_mark single (not_isOpen noQuote cs)
            next missing =>
              have noMark : isMark c = false := by
                rw [Bool.eq_false_iff]
                intro isMark
                obtain ⟨found, single⟩ := exists_ofChar? isMark
                cases missing.symm.trans single
              refine stuck_of_startingWith_eq_nil (by simpa using shown) ?_
              simp [Pattern.startingWith, noDigit, noQuote, noAmpersand, noName, noMark]

end ConditionalAssembly.Token
