import ConditionalAssembly.Context
import ConditionalAssembly.Proofs.Token.Names
import ConditionalAssembly.Proofs.Token.Partition

/-!
# Letter case

The languages of the tokens do not tell upper from lower case, and what a token
holds is in upper case, but for the text of a string.  A source in another case
is therefore cut into the same tokens as long as none of them is a string.
-/

namespace ConditionalAssembly

open Text
open scoped Computability

/-! ## Characters in another case -/

namespace Text

/-- A change of characters that changes nothing but their case. -/
def KeepsLetters (f : Char → Char) : Prop :=
  ∀ c, (f c).toUpper = c.toUpper

theorem keepsLetters_toUpper : KeepsLetters Char.toUpper :=
  Char.toUpper_toUpper_eq_toUpper

theorem keepsLetters_toLower : KeepsLetters Char.toLower :=
  Char.toUpper_toLower_eq_toUpper

namespace KeepsLetters

variable {f : Char → Char} (keeps : KeepsLetters f)

include keeps

theorem apply_eq {α : Type} {g : Char → α} (same : ∀ c, g c.toUpper = g c) (c : Char) :
    g (f c) = g c := by
  rw [← same (f c), keeps c, same c]

theorem apply_eq_of_letters {α : Type} {g : Char → α} {value : α}
    (letters : ∀ c, isNameStart c → g c = value) (c : Char) : g (f c) = g c := by
  refine keeps.apply_eq (fun c => ?_) c
  by_cases small : c.isLower
  · have start : isNameStart c := by
      rw [isNameStart, Char.isAlpha, small, Bool.or_true]
      rfl
    rw [letters c start, letters c.toUpper (by rwa [isNameStart_toUpper])]
  · rw [Char.toUpper_eq_of_not_isLower small]

theorem isNameStart_eq (c : Char) : isNameStart (f c) = isNameStart c :=
  keeps.apply_eq isNameStart_toUpper c

theorem isNameChar_eq (c : Char) : isNameChar (f c) = isNameChar c :=
  keeps.apply_eq isNameChar_toUpper c

theorem isDigit_eq (c : Char) : (f c).isDigit = c.isDigit :=
  keeps.apply_eq_of_letters (fun _ start => isDigit_eq_false_of_isNameStart start) c

theorem isSkipped_eq (c : Char) : Token.isSkipped (f c) = Token.isSkipped c :=
  keeps.apply_eq_of_letters (fun _ start =>
    Token.isSkipped_eq_false_of_isNameChar (Token.isNameChar_of_isNameStart start)) c

theorem eq_iff {d : Char} (noLetter : isNameStart d = false) (c : Char) : f c = d ↔ c = d := by
  have other (c : Char) (start : isNameStart c) : decide (c = d) = false := by
    rw [decide_eq_false_iff_not]
    rintro rfl
    simp [start] at noLetter
  simpa using keeps.apply_eq_of_letters other c

theorem isMark_eq (c : Char) : Token.isMark (f c) = Token.isMark c :=
  keeps.apply_eq_of_letters (fun _ => Token.Pattern.isMark_eq_false_of_isNameStart) c

theorem ofLetter?_eq (c : Char) : Attribute.ofLetter? (f c) = Attribute.ofLetter? c := by
  rw [Attribute.ofLetter?, Attribute.ofLetter?, keeps c]

theorem utf8Size_eq (c : Char) : (f c).utf8Size = c.utf8Size :=
  keeps.apply_eq_of_letters (fun _ start =>
    utf8Size_of_isNameChar (Token.isNameChar_of_isNameStart start)) c

theorem byteCount_map (cs : List Char) : byteCount (cs.map f) = byteCount cs := by
  induction cs with
  | nil => rfl
  | cons c cs ih => rw [List.map_cons, byteCount, byteCount, ih, keeps.utf8Size_eq]

theorem nameOf_map (cs : List Char) : nameOf (cs.map f) = nameOf cs := by
  rw [nameOf, nameOf, List.map_map]
  exact congrArg String.ofList (List.map_congr_left fun c _ => keeps c)

end KeepsLetters

end Text

namespace Token

/-! ## Languages in another case -/

/-- A text belongs to the language in another case exactly when it does as it is. -/
def Blind (f : Char → Char) (language : Language Char) : Prop :=
  ∀ text : List Char, text.map f ∈ language ↔ text ∈ language

namespace Blind

variable {f : Char → Char} {first second : Language Char}

theorem single {kind : Char → Bool} (same : ∀ c, kind (f c) = kind c) :
    Blind f (Token.single kind) := by
  intro text
  constructor
  · rintro ⟨d, isKind, whole⟩
    obtain ⟨c, rfl, rfl⟩ := List.map_eq_singleton_iff.mp whole
    exact ⟨c, (same c).symm.trans isKind, rfl⟩
  · rintro ⟨c, isKind, rfl⟩
    exact ⟨f c, (same c).trans isKind, rfl⟩

/-- A text without letters is the same in every case. -/
theorem fixed (keeps : KeepsLetters f) {spelling : List Char}
    (noLetter : spelling.any isNameStart = false) : Blind f {spelling} := by
  intro text
  change text.map f = spelling ↔ text = spelling
  induction spelling generalizing text with
  | nil => exact List.map_eq_nil_iff
  | cons d rest ih =>
      obtain ⟨first, others⟩ := Bool.or_eq_false_iff.mp noLetter
      cases text with
      | nil => simp
      | cons c cs => simp [keeps.eq_iff first, ih others]

theorem one : Blind f 1 := by
  intro text
  rw [Language.mem_one, Language.mem_one, List.map_eq_nil_iff]

theorem add (left : Blind f first) (right : Blind f second) : Blind f (first + second) := by
  intro text
  rw [Language.mem_add, Language.mem_add, left, right]

theorem mul (left : Blind f first) (right : Blind f second) : Blind f (first * second) := by
  intro text
  rw [Language.mem_mul, Language.mem_mul]
  constructor
  · rintro ⟨_, inLeft, _, inRight, whole⟩
    obtain ⟨front, rest, rfl, rfl, rfl⟩ := List.map_eq_append_iff.mp whole.symm
    exact ⟨front, (left front).mp inLeft, rest, (right rest).mp inRight, rfl⟩
  · rintro ⟨front, inLeft, rest, inRight, rfl⟩
    exact ⟨_, (left front).mpr inLeft, _, (right rest).mpr inRight, List.map_append.symm⟩

theorem kstar (blind : Blind f first) : Blind f first∗ := by
  intro text
  constructor
  · rw [Language.mem_kstar]
    rintro ⟨parts, whole, each⟩
    induction parts generalizing text with
    | nil =>
        rw [List.map_eq_nil_iff.mp whole]
        exact Language.nil_mem_kstar _
    | cons part others ih =>
        obtain ⟨front, rest, rfl, rfl, further⟩ := List.map_eq_append_iff.mp whole
        obtain ⟨inFirst, eachOther⟩ := List.forall_mem_cons.mp each
        obtain ⟨pieces, rfl, eachPiece⟩ := Language.mem_kstar.mp (ih rest further eachOther)
        refine Language.mem_kstar.mpr ⟨front :: pieces, rfl, ?_⟩
        exact List.forall_mem_cons.mpr ⟨(blind front).mp inFirst, eachPiece⟩
  · rw [Language.mem_kstar]
    rintro ⟨parts, rfl, each⟩
    rw [List.map_flatten]
    refine Language.join_mem_kstar fun part isPart => ?_
    obtain ⟨piece, isPiece, rfl⟩ := List.mem_map.mp isPart
    exact (blind piece).mpr (each piece isPiece)

end Blind

theorem Pattern.token?_symbolAttribute {n : Char} (noAmpersand : n ≠ '&') {c d : Char}
    {more : List Char} :
    attributeOf.token? (c :: d :: n :: more) =
      (Attribute.ofLetter? c).map fun kind => .attributeOf kind false (nameOf (n :: more)) := by
  simp [token?, noAmpersand]

theorem Pattern.token?_variableAttribute {c d : Char} {name : List Char} :
    attributeOf.token? (c :: d :: '&' :: name) =
      (Attribute.ofLetter? c).map fun kind => .attributeOf kind true (nameOf name) :=
  rfl

theorem isAttributeLetter_eq (c : Char) :
    isAttributeLetter c = (Attribute.ofLetter? c).isSome := by
  rw [Bool.eq_iff_iff, Option.isSome_iff_exists]
  exact ⟨exists_ofLetter?, fun ⟨_, letter⟩ => isAttributeLetter_of_ofLetter? letter⟩

section

variable {f : Char → Char} (keeps : KeepsLetters f)

include keeps

theorem blind_nameText : Blind f nameText :=
  (Blind.single keeps.isNameStart_eq).mul (Blind.single keeps.isNameChar_eq).kstar

theorem blind_quotedText : Blind f quotedText := by
  have noQuote (c : Char) : (f c != '\'') = (c != '\'') := by
    simp only [bne, beq_eq_decide, keeps.eq_iff (d := '\'') rfl]
  exact ((Blind.single noQuote).add (.fixed keeps rfl)).kstar

/-- No kind of token tells upper from lower case. -/
theorem Pattern.blind (pattern : Pattern) : Blind f pattern.language := by
  have name := blind_nameText keeps
  have text := blind_quotedText keeps
  cases pattern with
  | integer => exact (Blind.single keeps.isDigit_eq).mul (Blind.single keeps.isDigit_eq).kstar
  | string => exact ((Blind.fixed keeps rfl).mul text).mul (.fixed keeps rfl)
  | variableName => exact (Blind.fixed keeps rfl).mul name
  | createdName => exact .fixed keeps rfl
  | attributeOf =>
      have letter (c : Char) : isAttributeLetter (f c) = isAttributeLetter c := by
        rw [isAttributeLetter_eq, isAttributeLetter_eq, keeps.ofLetter?_eq]
      exact (((Blind.single letter).mul (.fixed keeps rfl)).mul
        (Blind.one.add (.fixed keeps rfl))).mul name
  | identifier => exact name
  | mark => exact .single keeps.isMark_eq

theorem map_eq_self {kind : Char → Bool} (other : ∀ c, isNameStart c → kind c = false)
    {cs : List Char} (all : cs.all kind) : cs.map f = cs := by
  have noLetter : cs.any isNameStart = false := by
    rw [List.any_eq_false]
    intro c isChar start
    exact absurd (List.all_eq_true.mp all c isChar) (by simp [other c start])
  exact (Blind.fixed keeps noLetter cs).mpr rfl

/-- But for a string, a token holds the same when it is spelled in another case. -/
theorem Pattern.token?_map {pattern : Pattern} {spelling : List Char}
    (spelled : spelling ∈ pattern.language) (noString : pattern ≠ .string) :
    pattern.token? (spelling.map f) = pattern.token? spelling := by
  cases pattern with
  | integer =>
      obtain ⟨c, cs, rfl, digit, all⟩ := mem_integer.mp spelled
      rw [map_eq_self keeps (fun _ start => isDigit_eq_false_of_isNameStart start)
        (by simp [digit, all])]
  | string => exact absurd rfl noString
  | variableName => rw [token?, token?, ← List.map_tail, keeps.nameOf_map]
  | createdName => rfl
  | attributeOf =>
      have ampersand : f '&' = '&' := (keeps.eq_iff rfl '&').mpr rfl
      obtain ⟨c, name, _, valid, rfl | rfl⟩ := mem_attributeOf.mp spelled
      · cases name with
        | nil => cases valid
        | cons n more =>
            have noAmpersand : n ≠ '&' := by
              rintro rfl
              exact absurd (isNameStart_of_isName valid) (by decide)
            rw [List.map_cons, List.map_cons, List.map_cons,
              token?_symbolAttribute (mt (keeps.eq_iff rfl n).mp noAmpersand),
              token?_symbolAttribute noAmpersand, keeps.ofLetter?_eq, ← List.map_cons,
              keeps.nameOf_map]
      · rw [List.map_cons, List.map_cons, List.map_cons, ampersand, token?_variableAttribute,
          token?_variableAttribute, keeps.ofLetter?_eq, keeps.nameOf_map]
  | identifier => rw [token?, token?, keeps.nameOf_map]
  | mark =>
      obtain ⟨c, isMark, rfl⟩ := mem_mark.mp spelled
      rw [map_eq_self keeps (fun _ => isMark_eq_false_of_isNameStart) (by simp [isMark])]

/-- The longest spelling is the same in every case. -/
theorem Pattern.IsLongest.map {pattern : Pattern} {spelling cs : List Char}
    (longest : pattern.IsLongest spelling cs) :
    pattern.IsLongest (spelling.map f) (cs.map f) where
  spelled := (pattern.blind keeps spelling).mpr longest.spelled
  front := longest.front.map f
  longest other longer spelled front := by
    obtain ⟨text, isFront, rfl⟩ := List.prefix_map_iff.mp front
    have le := longest.longest other text ((other.blind keeps text).mp spelled) isFront
    rwa [List.length_map, List.length_map]

theorem isOpen_map {cs : List Char} : IsOpen (cs.map f) ↔ IsOpen cs :=
  ((Blind.fixed keeps rfl).mul (blind_quotedText keeps)) cs

/-- A text in another case is cut in the same way, as long as no string is cut off. -/
theorem Cuts.map {offset stop : Nat} {cs left : List Char} {tokens : List PlacedToken}
    (cuts : Cuts offset cs tokens stop left)
    (noString : ∀ placed ∈ tokens, ∀ raw, placed.token ≠ .string raw) :
    Cuts offset (cs.map f) tokens stop (left.map f) := by
  induction cuts with
  | done => exact .done
  | @blank offset _ c _ _ _ skipped _ ih =>
      have cuts := ih noString
      rw [← keeps.utf8Size_eq c] at cuts
      exact .blank ((keeps.isSkipped_eq c).trans skipped) cuts
  | @token offset _ pattern spelling cs _ found _ notOpen longest held _ ih =>
      obtain ⟨first, others⟩ := List.forall_mem_cons.mp noString
      have cuts := ih others
      have other : pattern ≠ .string := by
        rintro rfl
        cases held
        exact first _ rfl
      rw [← keeps.byteCount_map spelling] at cuts ⊢
      rw [List.map_append]
      have longestToo := longest.map keeps
      rw [← isOpen_map keeps] at notOpen
      rw [List.map_append] at notOpen longestToo
      exact .token notOpen longestToo ((Pattern.token?_map keeps longest.spelled other).trans held)
        cuts

/-- A source in another case has the same tokens, as long as none of them is a string. -/
theorem listOf_map {source : String} {tokens : List PlacedToken} (listed : listOf source = .ok tokens)
    (noString : ∀ placed ∈ tokens, ∀ raw, placed.token ≠ .string raw) :
    listOf (source.map f) = .ok tokens ∧ (source.map f).utf8ByteSize = source.utf8ByteSize := by
  have size : (source.map f).utf8ByteSize = source.utf8ByteSize := by
    rw [← byteCount_toList, ← byteCount_toList, String.toList_map, keeps.byteCount_map]
  have cuts := (listOf_eq_ok_iff.mp listed).map keeps noString
  rw [← String.toList_map, ← size] at cuts
  exact ⟨listOf_eq_ok_iff.mpr cuts, size⟩

end

end Token

/-! ## Sources in another case -/

/-- A source in another case is read in the same way, as long as no token of it is a string. -/
theorem Expr.read_map {f : Char → Char} (keeps : KeepsLetters f) {source : String}
    {tokens : List PlacedToken} (listed : Token.listOf source = .ok tokens)
    (noString : ∀ placed ∈ tokens, ∀ raw, placed.token ≠ .string raw) :
    Expr.read (source.map f) = Expr.read source := by
  obtain ⟨listedToo, size⟩ := Token.listOf_map keeps listed noString
  rw [Expr.read, Expr.read, listedToo, listed, size]

/-- The case of letters outside strings does not matter: a source of whose tokens none is a string
is read in the same way in upper and in lower case, and calculated to the same value with the same
diagnostics. -/
theorem calculateSource_letterCase {source : String} {tokens : List PlacedToken}
    (listed : Token.listOf source = .ok tokens)
    (noString : ∀ placed ∈ tokens, ∀ raw, placed.token ≠ .string raw) :
    (Expr.read (upper source) = Expr.read source ∧ Expr.read (lower source) = Expr.read source) ∧
      ∀ (context : Context) (domain : Domain),
        context.calculateSource domain (upper source) = context.calculateSource domain source ∧
        context.calculateSource domain (lower source) = context.calculateSource domain source := by
  have inUpper := Expr.read_map keepsLetters_toUpper listed noString
  have inLower := Expr.read_map keepsLetters_toLower listed noString
  refine ⟨⟨inUpper, inLower⟩, fun context domain => ⟨?_, ?_⟩⟩
  · rw [Context.calculateSource, upper, inUpper]
    rfl
  · rw [Context.calculateSource, lower, inLower]
    rfl

/-- The tokens of `l'Field eq &x(i)`. -/
def comparedLength : List PlacedToken :=
  [⟨.attributeOf .length false "FIELD", 0, 7⟩, ⟨.identifier "EQ", 8, 10⟩, ⟨.variableName "X", 11, 13⟩,
    ⟨.openParen, 13, 14⟩, ⟨.identifier "I", 14, 15⟩, ⟨.closeParen, 15, 16⟩]

/-- The attribute `l'Field` and the word `eq` are read in upper case. -/
theorem calculateSource_letterCase_comparison :
    Token.listOf "l'Field eq &x(i)" = .ok comparedLength ∧
      Expr.read "L'FIELD EQ &X(I)" = Expr.read "l'Field eq &x(i)" ∧
      Context.calculateSource {} .binary "L'FIELD EQ &X(I)" =
        Context.calculateSource {} .binary "l'Field eq &x(i)" := by
  have listed : Token.listOf "l'Field eq &x(i)" = .ok comparedLength := by cbv
  have noString : ∀ placed ∈ comparedLength, ∀ raw, placed.token ≠ .string raw := by
    simp [comparedLength]
  have inUpper : upper "l'Field eq &x(i)" = "L'FIELD EQ &X(I)" := by cbv
  have same := calculateSource_letterCase listed noString
  rw [inUpper] at same
  exact ⟨listed, same.1.1, (same.2 {} .binary).1⟩

end ConditionalAssembly
