import ConditionalAssembly.Proofs.Concatenation.Parts
import ConditionalAssembly.Proofs.Token.Names

/-!
# Texts put together from tokens

A text falls into its tokens wherever it stands, as long as what follows does
not go on with the last of them.  Texts that do so may be put one behind the
other, if the second begins with a mark or a blank.
-/

namespace ConditionalAssembly.Token

open ConditionalAssembly.Text

/-- A text with which no name, number or attribute goes on. -/
def Ends (rest : List Char) : Prop :=
  rest.head?.any isNameChar = false ∧ rest.head? ≠ some '\''

/-- From an offset on, the text falls into the tokens, whatever it ends in front of. -/
def Lexes (offset : Nat) (text : List Char) (tokens : List PlacedToken) : Prop :=
  ∀ rest, Ends rest →
    listFrom offset (text ++ rest) = (tokens ++ ·) <$> listFrom (offset + byteCount text) rest

theorem ends_nil : Ends [] :=
  ⟨rfl, nofun⟩

theorem ends_cons {c : Char} (noName : isNameChar c = false) (noQuote : c ≠ '\'')
    (cs : List Char) : Ends (c :: cs) :=
  ⟨noName, fun same => noQuote (Option.some.inj same)⟩

theorem Ends.isDigit {rest : List Char} (ends : Ends rest) :
    rest.head?.any Char.isDigit = false := by
  cases rest with
  | nil => rfl
  | cons c cs =>
      have noName : isNameChar c = false := ends.1
      rw [isNameChar, Bool.or_eq_false_iff] at noName
      exact noName.2

/-- A whole source has the tokens that its text falls into. -/
theorem Lexes.listOf {text : List Char} {tokens : List PlacedToken} (lexes : Lexes 0 text tokens) :
    Token.listOf (String.ofList text) = .ok tokens := by
  have whole := lexes [] ends_nil
  rw [List.append_nil, listFrom_nil] at whole
  rw [Token.listOf, String.toList_ofList, whole]
  exact congrArg Except.ok (List.append_nil tokens)

/-! ## Putting texts together -/

variable {offset : Nat}

theorem lexes_nil : Lexes offset [] [] := by
  intro rest _
  rw [List.nil_append, byteCount, Nat.add_zero]
  cases listFrom offset rest <;> rfl

/-- Behind a text stands another that ends it. -/
theorem Lexes.append {first second : List Char} {tokens others : List PlacedToken} {c : Char}
    (lexes : Lexes offset first tokens)
    (behind : Lexes (offset + byteCount first) (c :: second) others)
    (noName : isNameChar c = false := by decide) (noQuote : c ≠ '\'' := by decide) :
    Lexes offset (first ++ c :: second) (tokens ++ others) := by
  intro rest ends
  have further := behind rest ends
  rw [List.cons_append] at further
  rw [List.append_assoc, List.cons_append, lexes _ (ends_cons noName noQuote _), further,
    byteCount_append, ← Nat.add_assoc]
  cases listFrom (offset + byteCount first + byteCount (c :: second)) rest with
  | error error => rfl
  | ok more => exact congrArg Except.ok (List.append_assoc tokens others more).symm

/-- A mark is a token wherever it stands. -/
theorem Lexes.mark (c : Char) {found : Token} (single : ofChar? c = some found)
    {text : List Char} {tokens : List PlacedToken}
    (behind : Lexes (offset + byteCount [c]) text tokens) :
    Lexes offset (c :: text) (⟨found, offset, offset + byteCount [c]⟩ :: tokens) := by
  intro rest ends
  have scanned : scan c (text ++ rest) = .token found [c] (text ++ rest) := by
    unfold ofChar? at single
    split at single <;> cases single <;> rfl
  have size : byteCount (c :: text) = byteCount [c] + byteCount text :=
    byteCount_append [c] text
  rw [List.cons_append, listFrom_token scanned, behind rest ends, size, Nat.add_assoc]
  cases listFrom (offset + (byteCount [c] + byteCount text)) rest <;> rfl

theorem Lexes.exists_mark (c : Char) {found : Token}
    (single : ofChar? c = some found) {text : List Char} {tokens : List PlacedToken}
    (behind : Lexes (offset + byteCount [c]) text tokens) :
    ∃ placed : PlacedToken, placed.token = found ∧ placed.start = offset ∧
      Lexes offset (c :: text) (placed :: tokens) :=
  ⟨_, rfl, rfl, behind.mark c single⟩

/-- A blank in front of a text is skipped. -/
theorem Lexes.blank {text : List Char} {tokens : List PlacedToken}
    (behind : Lexes (offset + byteCount [' ']) text tokens) :
    Lexes offset (' ' :: text) tokens := by
  intro rest ends
  have size : byteCount (' ' :: text) = byteCount [' '] + byteCount text :=
    byteCount_append [' '] text
  have skipped : scan ' ' (text ++ rest) = .blank := rfl
  rw [size, ← Nat.add_assoc, ← behind rest ends, List.cons_append, listFrom_blank skipped]
  rfl

/-! ## Single tokens -/

variable (offset)

theorem lexes_of_scan {text : List Char} {found : Token}
    (scanned : ∀ rest, Ends rest →
      ∃ c cs, text ++ rest = c :: cs ∧ scan c cs = .token found text rest) :
    Lexes offset text [⟨found, offset, offset + byteCount text⟩] := by
  intro rest ends
  obtain ⟨c, cs, whole, isToken⟩ := scanned rest ends
  rw [whole, listFrom_token isToken]
  rfl

theorem lexes_word {name : String} (upper : IsUpperName name) :
    Lexes offset name.toList
      [⟨.identifier name, offset, offset + byteCount name.toList⟩] := by
  refine lexes_of_scan offset fun rest ends => ?_
  have scanned := @NamePart.scan_spelling (.word name.toList) rest ⟨upper.valid, ends.1⟩ ends.2
  rwa [NamePart.token, upper.upper] at scanned

/-- A name behind an ampersand is one token, whatever the case of its letters. -/
theorem lexes_reference {name : List Char} (valid : isName name) :
    Lexes offset ('&' :: name)
      [⟨.variableName (nameOf name), offset, offset + byteCount ('&' :: name)⟩] := by
  refine lexes_of_scan offset fun rest ends => ?_
  exact @NamePart.scan_spelling (.reference name) rest ⟨valid, ends.1⟩ ends.2

theorem lexes_variableName {name : String} (upper : IsUpperName name) :
    Lexes offset ('&' :: name.toList)
      [⟨.variableName name, offset, offset + byteCount ('&' :: name.toList)⟩] := by
  have lexes := lexes_reference offset upper.valid
  rwa [upper.upper] at lexes

/-- A run of digits is a token that holds the number they denote. -/
theorem lexes_digits {digits : List Char} (nonempty : digits ≠ []) (all : digits.all Char.isDigit)
    (bounded : Decimal.value digits ≤ maxInteger) :
    Lexes offset digits
      [⟨.integer (Decimal.value digits), offset, offset + byteCount digits⟩] := by
  refine lexes_of_scan offset fun rest ends => ?_
  exact @NamePart.scan_spelling (.number digits) rest ⟨nonempty, all, bounded, ends.isDigit⟩ ends.2

/-- The numeral of a number is a token that holds the number. -/
theorem lexes_numeral {n : Nat} (bounded : n ≤ maxInteger) :
    Lexes offset (Decimal.ofNat n).toList
      [⟨.integer n, offset, offset + byteCount (Decimal.ofNat n).toList⟩] := by
  have digits : (Decimal.ofNat n).toList = Nat.toDigits 10 n := String.toList_ofList
  have denoted := Decimal.value_toDigits n
  have lexes := @lexes_digits offset (Nat.toDigits 10 n) Nat.toDigits_ne_nil
    (Decimal.all_isDigit_toDigits n) (by rwa [denoted])
  rwa [denoted, ← digits] at lexes

/-- So is the numeral of a word that is not negative. -/
theorem lexes_ofWord {word : Int32} (nonneg : 0 ≤ word.toInt) :
    Lexes offset (Decimal.ofWord word).toList
      [⟨.integer word.toInt.toNat, offset,
        offset + byteCount (Decimal.ofWord word).toList⟩] := by
  have bounded := word.toInt_lt
  have fits : word.toInt.toNat ≤ maxInteger := by
    unfold maxInteger
    omega
  have numeral : Decimal.ofWord word = Decimal.ofNat word.toInt.toNat := by
    rw [Decimal.ofWord, Decimal.ofInt, if_neg (Int.not_lt.mpr nonneg)]
    congr
    omega
  rw [numeral]
  exact lexes_numeral offset fits

theorem isNameStart_letter (kind : Attribute) : isNameStart kind.letter := by
  cases kind <;> decide

theorem lexes_attributeOf (kind : Attribute) {name : String} (upper : IsUpperName name) :
    Lexes offset (kind.letter :: '\'' :: name.toList)
      [⟨.attributeOf kind false name, offset,
        offset + byteCount (kind.letter :: '\'' :: name.toList)⟩] := by
  refine lexes_of_scan offset fun rest ends => ⟨kind.letter, '\'' :: (name.toList ++ rest), rfl, ?_⟩
  have valid := upper.valid
  have held := upper.upper
  rw [scan_of_isNameStart (isNameStart_letter kind)]
  cases spelling : name.toList with
  | nil =>
      rw [spelling] at valid
      cases valid
  | cons n more =>
      rw [spelling] at valid held
      have start := isNameStart_of_isName valid
      have noAmpersand : n ≠ '&' := by
        rintro rfl
        exact absurd start (by decide)
      rw [List.cons_append, scanWord_quote (Attribute.ofLetter?_letter kind) noAmpersand,
        if_pos start, ← List.cons_append, scanName_append _ _ valid ends.1, held]
      rfl

end ConditionalAssembly.Token
