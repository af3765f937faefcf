import ConditionalAssembly.Proofs.Concatenation.Parts
import ConditionalAssembly.Proofs.Token.Names

/-!
# Created names and quoted texts

The same text may stand in a created name and between quotes.  Both read its
variables and periods alike, but a created name holds numbers by their value:
zeros in front of another digit are lost there, and the name then is not the one
that the quoted text spells.
-/

namespace ConditionalAssembly

open Text

/-! ## The text of parts -/

/-- A text with its variables replaced by their texts.  One period directly behind a variable
only ends its name; every other character stands for itself. -/
def spliced (store : Store) : List Char → String
  | [] => ""
  | '&' :: cs =>
      have := Chain.length_behindName_le cs
      store.text (nameOf (cs.takeWhile isNameChar)) ++
        spliced store (Chain.dropPeriod (cs.dropWhile isNameChar))
  | c :: cs => c.toString ++ spliced store cs
termination_by cs => cs.length
decreasing_by all_goals (simp only [List.length_cons]; omega)

/-- The text of some parts, with their numbers written in some way. -/
def joined (store : Store) (numeral : List Char → String) : List NamePart → String
  | [] => ""
  | .word letters :: rest => String.ofList letters ++ joined store numeral rest
  | .number digits :: rest => numeral digits ++ joined store numeral rest
  | .period :: rest => "." ++ joined store numeral rest
  | .reference name :: .period :: rest => store.text (nameOf name) ++ joined store numeral rest
  | .reference name :: rest => store.text (nameOf name) ++ joined store numeral rest

/-- The numeral of the number that some digits denote. -/
def canonical (digits : List Char) : String :=
  Decimal.ofNat (Decimal.value digits)

/-- A way to give texts a meaning in which variables stand for their texts and other characters
for themselves, whatever column a text starts in. -/
structure Splices (store : Store) (meaning : Nat → List Char → String) : Prop where
  nil : ∀ column, meaning column [] = ""
  literal : ∀ {cs : List Char}, '\'' ∉ cs → '&' ∉ cs → ∀ column rest, ∃ stop,
    meaning column (cs ++ rest) = String.ofList cs ++ meaning stop rest
  reference : ∀ {name rest : List Char}, isName name → rest.head?.any isNameChar = false →
    ∀ column, ∃ stop, meaning column ('&' :: (name ++ rest)) =
      store.text (nameOf name) ++ meaning stop (Chain.dropPeriod rest)

/-- Only a period starts with a period. -/
theorem dropPeriod_spelled {parts : List NamePart} (cut : IsCut parts)
    (noPeriod : ∀ rest, parts ≠ .period :: rest) :
    Chain.dropPeriod (spelled parts) = spelled parts := by
  unfold Chain.dropPeriod
  split
  next cs same =>
    cases parts with
    | nil => exact nomatch same
    | cons part rest =>
        have fits := cut.1
        cases part with
        | word letters =>
            cases letters with
            | nil => exact nomatch fits.1
            | cons c cs =>
                cases same
                exact absurd (isNameStart_of_isName fits.1) (by decide)
        | number digits =>
            cases digits with
            | nil => exact absurd rfl fits.1
            | cons c cs =>
                cases same
                have digit := List.all_eq_true.mp fits.2.1 '.' (by simp)
                exact absurd digit (by decide)
        | period => exact absurd rfl (noPeriod rest)
        | reference name => exact nomatch same
  next => rfl

/-- Every such meaning of some parts is their text with the numbers as they stand. -/
theorem Splices.spelled_eq {store : Store} {meaning : Nat → List Char → String}
    (splices : Splices store meaning) {parts : List NamePart} (cut : IsCut parts) (column : Nat) :
    meaning column (spelled parts) = joined store String.ofList parts := by
  induction parts using joined.induct generalizing column with
  | case1 => exact splices.nil column
  | case2 letters rest ih =>
      obtain ⟨⟨valid, _⟩, cutRest⟩ := cut
      have noQuote := not_mem_of_all (all_of_isName valid) (by decide : isNameChar '\'' = false)
      have noAmpersand := not_mem_of_all (all_of_isName valid) (by decide : isNameChar '&' = false)
      obtain ⟨stop, same⟩ := splices.literal noQuote noAmpersand column (spelled rest)
      rw [joined, ← ih cutRest stop, ← same]
      rfl
  | case3 digits rest ih =>
      obtain ⟨⟨_, all, _⟩, cutRest⟩ := cut
      have noQuote := not_mem_of_all all (by decide : '\''.isDigit = false)
      have noAmpersand := not_mem_of_all all (by decide : '&'.isDigit = false)
      obtain ⟨stop, same⟩ := splices.literal noQuote noAmpersand column (spelled rest)
      rw [joined, ← ih cutRest stop, ← same]
      rfl
  | case4 rest ih =>
      have noQuote : '\'' ∉ ['.'] := by decide
      have noAmpersand : '&' ∉ ['.'] := by decide
      obtain ⟨stop, same⟩ := splices.literal noQuote noAmpersand column (spelled rest)
      rw [joined, ← ih cut.2 stop]
      exact same
  | case5 name rest ih =>
      obtain ⟨⟨valid, ends⟩, _, cutRest⟩ := cut
      obtain ⟨stop, same⟩ := splices.reference valid ends column
      rw [joined, ← ih cutRest stop]
      exact same
  | case6 name rest noPeriod ih =>
      obtain ⟨⟨valid, ends⟩, cutRest⟩ := cut
      obtain ⟨stop, same⟩ := splices.reference valid ends column
      rw [joined, ← ih cutRest stop]
      · rw [dropPeriod_spelled cutRest fun rest' same => noPeriod rest' same] at same
        exact same
      · exact noPeriod

/-- Splicing is such a meaning. -/
theorem splices_spliced (store : Store) : Splices store fun _ => spliced store where
  nil _ := by rw [spliced]
  literal := by
    intro cs noQuote noAmpersand column rest
    refine ⟨column, ?_⟩
    clear noQuote
    induction cs with
    | nil => simp
    | cons c cs ih =>
        rw [List.mem_cons, not_or] at noAmpersand
        rw [List.cons_append, spliced]
        · rw [ih noAmpersand.2, ← List.singleton_append, String.ofList_append, String.append_assoc]
          rfl
        · exact Ne.symm noAmpersand.1
  reference := by
    intro name rest valid ends column
    have all := all_of_isName valid
    refine ⟨column, ?_⟩
    rw [spliced, takeWhile_of_ends all ends, dropWhile_of_ends all ends]

/-- What a quoted text is evaluated to is such a meaning. -/
theorem splices_evaluateChain (store : Store) :
    Splices store fun column text => (evaluateChain store (Chain.ofQuoted column text)).value where
  nil column := by
    rw [Chain.ofQuoted, evaluateChain]
    rfl
  literal := by
    intro cs noQuote noAmpersand column rest
    obtain ⟨stop, same⟩ := Chain.renders_literal noQuote noAmpersand column rest
    refine ⟨stop, ?_⟩
    rw [same]
    rfl
  reference := by
    intro name rest valid ends column
    obtain ⟨range, stop, same⟩ := Chain.ofQuoted_reference valid ends column
    refine ⟨stop, ?_⟩
    rw [same, Chain.value_evaluateChain_reference]

/-! ## Pieces of created names -/

@[simp]
theorem upper_append (first second : String) :
    upper (first ++ second) = upper first ++ upper second := by
  simp [upper, String.ext_iff]

theorem upper_nameOf (spelling : List Char) :
    upper (nameOf spelling) = upper (String.ofList spelling) := by
  simp [upper, nameOf, String.ext_iff, Function.comp_def]

/-- A period is a piece of its own unless a variable is directly in front of it. -/
theorem pieces_behind {behind : Option Nat} {tokens : List PlacedToken} {chain : Chain}
    (pieces : Grammar.Pieces none tokens chain)
    (noPeriod : ∀ first ∈ tokens.head?, first.token ≠ .dot) :
    Grammar.Pieces behind tokens chain := by
  cases pieces with
  | nil => exact .nil
  | identifier token others => exact .identifier token others
  | integer token others => exact .integer token others
  | period token _ others => exact absurd token (noPeriod _ rfl)
  | variableItem token subscripted ends others => exact .variableItem token subscripted ends others

/-- No part goes on with a term in front of it. -/
theorem endsBefore_placed (tail : Grammar.Tail) (offset : Nat) (parts : List NamePart) :
    tail.EndsBefore (placed offset parts) := by
  intro next isNext taken
  cases parts with
  | nil => exact nomatch isNext
  | cons part rest =>
      cases isNext
      cases tail with
      | closed => exact taken
      | parenthesis stop => cases part <;> exact nomatch taken.1
      | string stop =>
          obtain ⟨⟨raw, isString⟩, _⟩ := taken
          cases part <;> exact nomatch isString

/-- A variable of one token in front of other pieces. -/
theorem pieces_reference {name : String} {start stop : Nat} {rest : List PlacedToken}
    {chain : Chain} (ends : (Grammar.Tail.parenthesis stop).EndsBefore rest)
    (others : Grammar.Pieces (some stop) rest chain) :
    Grammar.Pieces none (⟨.variableName name, start, stop⟩ :: rest)
      (.variableItem ⟨.basic name, [], .columns start stop⟩ :: chain) := by
  let placed : PlacedToken := ⟨.variableName name, start, stop⟩
  let reference : VariableSymbol := ⟨.basic name, [], placed.range⟩
  have bare : Grammar.Subscripted reference [] reference (.parenthesis stop) := .none
  have whole : Grammar.Pieces none (placed :: ([] ++ rest)) (.variableItem reference :: chain) :=
    .variableItem rfl bare ends others
  exact whole

/-- A period directly behind a variable in front of other pieces. -/
theorem pieces_endOfName {start stop : Nat} {rest : List PlacedToken} {chain : Chain}
    (others : Grammar.Pieces none rest chain) :
    Grammar.Pieces (some start) (⟨.dot, start, stop⟩ :: rest) chain :=
  @Grammar.Pieces.endOfName ⟨.dot, start, stop⟩ _ _ rfl others

/-- Parts in a created name are read as pieces that hold numbers by their value. -/
theorem exists_pieces (parts : List NamePart) (offset : Nat) :
    ∃ chain, Grammar.Pieces none (placed offset parts) chain ∧ ∀ store,
      upper (evaluateChain store chain).value = upper (joined store canonical parts) := by
  induction parts using joined.induct generalizing offset with
  | case1 => exact ⟨[], .nil, fun store => rfl⟩
  | case2 letters rest ih =>
      obtain ⟨chain, pieces, evaluated⟩ := ih (offset + byteCount letters)
      refine ⟨_, .identifier rfl pieces, fun store => ?_⟩
      rw [evaluateChain, joined, upper_append, ← evaluated, ← upper_nameOf, ← upper_append]
      rfl
  | case3 digits rest ih =>
      obtain ⟨chain, pieces, evaluated⟩ := ih (offset + byteCount digits)
      refine ⟨_, .integer rfl pieces, fun store => ?_⟩
      rw [evaluateChain, joined, upper_append, ← evaluated, ← upper_append]
      rfl
  | case4 rest ih =>
      obtain ⟨chain, pieces, evaluated⟩ := ih (offset + byteCount ['.'])
      refine ⟨_, .period rfl nofun pieces, fun store => ?_⟩
      rw [evaluateChain, joined, upper_append, ← evaluated, ← upper_append]
      rfl
  | case5 name rest ih =>
      obtain ⟨chain, pieces, evaluated⟩ := ih (offset + byteCount ('&' :: name) + byteCount ['.'])
      refine ⟨_, pieces_reference ?_ (pieces_endOfName pieces), fun store => ?_⟩
      · exact endsBefore_placed _ _ (.period :: rest)
      · rw [Chain.value_evaluateChain_reference, joined, upper_append, upper_append, evaluated]
  | case6 name rest noPeriod ih =>
      obtain ⟨chain, pieces, evaluated⟩ := ih (offset + byteCount ('&' :: name))
      have noDot : ∀ first ∈ (placed (offset + byteCount ('&' :: name)) rest).head?,
          first.token ≠ .dot := by
        rintro first isFirst isDot
        cases rest with
        | nil => exact nomatch isFirst
        | cons part rest =>
            cases isFirst
            cases part with
            | period => exact noPeriod rest rfl
            | word | number | reference => exact nomatch isDot
      refine ⟨_, pieces_reference (endsBefore_placed _ _ rest) (pieces_behind pieces noDot),
        fun store => ?_⟩
      rw [Chain.value_evaluateChain_reference, joined, upper_append, upper_append, evaluated]
      exact noPeriod

/-! ## Numbers that begin with a zero -/

/-- A number, which starts a text or stands directly behind a period, begins with a zero that
another digit follows. -/
def padsNumber (fresh : Bool) : List Char → Bool
  | [] => false
  | c :: cs => (fresh && c == '0' && cs.head?.any Char.isDigit) || padsNumber (c == '.') cs

/-- A part is a number that begins with a zero that another digit follows. -/
def NamePart.isPadded : NamePart → Bool
  | .number digits => Decimal.isPadded digits
  | .word _ | .period | .reference _ => false

theorem padsNumber_append {cs : List Char} (noPeriod : '.' ∉ cs) (rest : List Char) :
    padsNumber false (cs ++ rest) = padsNumber false rest := by
  induction cs with
  | nil => rfl
  | cons c cs ih =>
      rw [List.mem_cons, not_or] at noPeriod
      have different : (c == '.') = false := by simpa using Ne.symm noPeriod.1
      simp [padsNumber, different, ih noPeriod.2]

theorem any_isDigit_of_any_isNameChar {cs : List Char} (ends : cs.head?.any isNameChar = false) :
    cs.head?.any Char.isDigit = false := by
  cases cs with
  | nil => rfl
  | cons c cs =>
      simp only [List.head?_cons, Option.any_some] at ends ⊢
      rw [Bool.eq_false_iff] at ends ⊢
      exact mt isNameChar_of_isDigit ends

/-- The numbers of a text are its parts that are numbers. -/
theorem padsNumber_spelled {parts : List NamePart} (cut : IsCut parts) {fresh : Bool}
    (apart : fresh = false → (spelled parts).head?.any Char.isDigit = false) :
    padsNumber fresh (spelled parts) = parts.any NamePart.isPadded := by
  induction parts generalizing fresh with
  | nil => rfl
  | cons part rest ih =>
      obtain ⟨fits, cutRest⟩ := cut
      have further {fresh : Bool} (apart : fresh = false →
          (spelled rest).head?.any Char.isDigit = false) := ih cutRest apart
      cases part with
      | word letters =>
          obtain ⟨valid, ends⟩ := fits
          have noPeriod := not_mem_of_all (all_of_isName valid) (by decide : isNameChar '.' = false)
          cases letters with
          | nil => exact nomatch valid
          | cons c cs =>
              rw [List.mem_cons, not_or] at noPeriod
              have noZero : (c == '0') = false := by
                rw [beq_eq_false_iff_ne]
                rintro rfl
                exact absurd (isNameStart_of_isName valid) (by decide)
              have different : (c == '.') = false := by simpa using Ne.symm noPeriod.1
              change padsNumber fresh (c :: (cs ++ spelled rest)) = rest.any NamePart.isPadded
              rw [padsNumber, noZero, different, padsNumber_append noPeriod.2,
                further fun _ => any_isDigit_of_any_isNameChar ends]
              simp
      | number digits =>
          obtain ⟨nonempty, all, _, ends⟩ := fits
          have noPeriod := not_mem_of_all all (by decide : '.'.isDigit = false)
          cases digits with
          | nil => exact absurd rfl nonempty
          | cons c cs =>
              rw [List.mem_cons, not_or] at noPeriod
              rw [List.all_cons, Bool.and_eq_true] at all
              have isFresh : fresh = true := by
                rw [← Bool.not_eq_false]
                intro behind
                have noDigit : c.isDigit = false := apart behind
                exact absurd all.1 (by simp [noDigit])
              have different : (c == '.') = false := by simpa using Ne.symm noPeriod.1
              have goesOn : (c == '0' && (cs ++ spelled rest).head?.any Char.isDigit) =
                  Decimal.isPadded (c :: cs) := by
                by_cases zero : c = '0'
                · subst zero
                  cases cs with
                  | nil => simpa [Decimal.isPadded] using ends
                  | cons d ds =>
                      have digit : d.isDigit := List.all_eq_true.mp all.2 d (by simp)
                      simpa [Decimal.isPadded] using digit
                · simp [Decimal.isPadded, zero]
              change padsNumber fresh (c :: (cs ++ spelled rest)) =
                (Decimal.isPadded (c :: cs) || rest.any NamePart.isPadded)
              rw [padsNumber, different, padsNumber_append noPeriod.2, further fun _ => ends,
                isFresh, Bool.true_and, goesOn]
      | period =>
          have behind : padsNumber true (spelled rest) = rest.any NamePart.isPadded :=
            further nofun
          change padsNumber fresh ('.' :: spelled rest) = rest.any NamePart.isPadded
          rw [padsNumber, ← behind]
          simp
      | reference name =>
          obtain ⟨valid, ends⟩ := fits
          have noPeriod := not_mem_of_all (all_of_isName valid) (by decide : isNameChar '.' = false)
          change padsNumber fresh ('&' :: (name ++ spelled rest)) = rest.any NamePart.isPadded
          rw [padsNumber]
          change (_ && false && _ || padsNumber false (name ++ spelled rest)) = _
          rw [padsNumber_append noPeriod, further fun _ => any_isDigit_of_any_isNameChar ends]
          simp

section Canonical

variable (store : Store) {parts : List NamePart}

/-- Writing numbers by their value changes nothing if none of them begins with such a zero. -/
theorem joined_canonical (cut : IsCut parts) (bare : parts.any NamePart.isPadded = false) :
    joined store canonical parts = joined store String.ofList parts := by
  induction parts using joined.induct with
  | case1 => rfl
  | case3 digits rest ih =>
      obtain ⟨⟨nonempty, all, _⟩, cutRest⟩ := cut
      rw [List.any_cons, Bool.or_eq_false_iff] at bare
      have same : canonical digits = String.ofList digits := by
        rw [canonical, Decimal.ofNat, Decimal.toDigits_value all nonempty bare.1]
      rw [joined, joined, same, ih cutRest bare.2]
  | case2 letters rest ih | case4 rest ih => rw [joined, joined, ih cut.2 bare]
  | case5 name rest ih => rw [joined, joined, ih cut.2.2 bare]
  | case6 name rest noPeriod ih =>
      rw [joined, joined, ih cut.2 bare]
      · exact noPeriod
      · exact noPeriod

/-- Writing numbers by their value makes no text longer, and texts shorter in which one of them
begins with such a zero. -/
theorem length_joined_canonical (cut : IsCut parts) :
    (joined store canonical parts).length ≤ (joined store String.ofList parts).length ∧
      (parts.any NamePart.isPadded →
        (joined store canonical parts).length < (joined store String.ofList parts).length) := by
  induction parts using joined.induct with
  | case1 => exact ⟨Nat.le_refl _, nofun⟩
  | case3 digits rest ih =>
      obtain ⟨⟨nonempty, all, _⟩, cutRest⟩ := cut
      obtain ⟨le, lt⟩ := ih cutRest
      have length :
          (canonical digits).length = (Nat.toDigits 10 (Decimal.value digits)).length := by
        rw [canonical, Decimal.ofNat, String.length_ofList]
      have leDigits := Decimal.length_toDigits_value_le all nonempty
      rw [List.any_cons, Bool.or_eq_true]
      simp only [joined, String.length_append, String.length_ofList, length]
      refine ⟨by omega, ?_⟩
      rintro (padded | padded)
      · have ltDigits := Decimal.length_toDigits_value_lt all padded
        omega
      · have ltRest := lt padded
        omega
  | case2 letters rest ih | case4 rest ih =>
      simpa [joined, NamePart.isPadded] using ih cut.2
  | case5 name rest ih => simpa [joined, NamePart.isPadded] using ih cut.2.2
  | case6 name rest noPeriod ih =>
      simpa [joined, NamePart.isPadded, noPeriod] using ih cut.2

/-- Numbers written by their value make the same name exactly if none begins with such a zero. -/
theorem upper_joined_eq_iff (cut : IsCut parts) :
    upper (joined store canonical parts) = upper (joined store String.ofList parts) ↔
      parts.any NamePart.isPadded = false := by
  constructor
  · intro same
    rw [Bool.eq_false_iff]
    intro padded
    have shorter := (length_joined_canonical store cut).2 padded
    have lengths := congrArg String.length same
    simp only [upper, String.length_map] at lengths
    exact absurd lengths (Nat.ne_of_lt shorter)
  · intro bare
    rw [joined_canonical store cut bare]

end Canonical

/-! ## One text in both places -/

/-- A text as a created name. -/
def creation (text : List Char) : String :=
  String.ofList ('&' :: '(' :: (text ++ [')']))

/-- A text that is read as a created name is cut into parts, and the name is made up of the
pieces that the parts are read as. -/
theorem exists_created {text : List Char} (plain : IsPlainText text) {expr : Expr}
    (read : Expr.read (creation text) = .ok expr) :
    ∃ parts created range, spelled parts = text ∧ IsCut parts ∧
      expr = .unresolved [.variableTerm ⟨.created created, [], range⟩ none]
        (.columns 0 (creation text).utf8ByteSize) ∧
      ∀ store, upper (evaluateChain store created).value =
        upper (joined store canonical parts) := by
  have opener (rest : List Char) :
      Token.scan '&' ('(' :: rest) = .token .createdName ['&', '('] rest := rfl
  obtain ⟨tokens, _, listed, _⟩ := derives_read _ _ read
  rw [creation, Token.listOf, String.toList_ofList, Token.listFrom_token (opener _)] at listed
  obtain ⟨_, listedText, _⟩ := Phrase.map_eq_ok_iff.mp listed
  obtain ⟨parts, spells, cut⟩ := exists_isCut text plain listedText
  obtain ⟨close, closes, listedParts⟩ :=
    listFrom_spelled cut (spells ▸ plain) (byteCount ['&', '('])
  obtain ⟨created, pieces, evaluated⟩ := exists_pieces parts (byteCount ['&', '('])
  let first : PlacedToken := ⟨.createdName, 0, byteCount ['&', '(']⟩
  have scanned : Token.listOf (creation text) =
      .ok (first :: (placed (byteCount ['&', '(']) parts ++ [close])) := by
    rw [creation, Token.listOf, String.toList_ofList, Token.listFrom_token (opener _), ← spells,
      Nat.zero_add, listedParts]
    rfl
  have derived : Grammar.Fragments (first :: (placed (byteCount ['&', '(']) parts ++ [close]))
      [.variableTerm ⟨.created created, [], .columns 0 close.stop⟩ none] := by
    have named : Grammar.Variable (first :: (placed (byteCount ['&', '(']) parts ++ [close]))
        ⟨.created created, [], .columns 0 close.stop⟩ := .created rfl pieces closes
    simpa using Grammar.Fragments.cons (.variableTerm named .none) (Reader.endsBefore_nil _) .nil
  have same := (read_of_derives scanned derived).symm.trans read
  cases same
  exact ⟨parts, created, _, spells, cut, rfl, evaluated⟩

/-- The name that a text creates is the text between quotes in upper case, exactly if no number in
it begins with a zero that another digit follows. -/
theorem name_eq_upper_text_iff {text : List Char} (plain : IsPlainText text) {expr : Expr}
    (read : Expr.read (creation text) = .ok expr) :
    ∃ created range,
      expr = .unresolved [.variableTerm ⟨.created created, [], range⟩ none]
        (.columns 0 (creation text).utf8ByteSize) ∧
      Expr.read (quotation text) = .ok (.unresolved [quotedTerm text none]
        (.columns 0 (quotation text).utf8ByteSize)) ∧
      ∀ store,
        (evaluateChain store (Chain.ofQuoted 1 text)).value = spliced store text ∧
        (((VariableName.created created).evaluate store).value =
            upper (evaluateChain store (Chain.ofQuoted 1 text)).value ↔
          padsNumber true text = false) := by
  obtain ⟨parts, created, range, spells, cut, isCreated, evaluated⟩ := exists_created plain read
  have noQuote : '\'' ∉ text := by
    intro quote
    exact absurd (plain _ quote) (by decide)
  refine ⟨created, range, isCreated, read_quotation (Token.continues_of_noQuote noQuote), ?_⟩
  intro store
  have quoted : (evaluateChain store (Chain.ofQuoted 1 text)).value =
      joined store String.ofList parts :=
    spells ▸ (splices_evaluateChain store).spelled_eq cut 1
  have meant : spliced store text = joined store String.ofList parts :=
    spells ▸ (splices_spliced store).spelled_eq cut 1
  have named : ((VariableName.created created).evaluate store).value =
      upper (joined store canonical parts) := by
    rw [VariableName.evaluate, Reported.value_map]
    exact evaluated store
  have padded : padsNumber true text = parts.any NamePart.isPadded :=
    spells ▸ padsNumber_spelled cut nofun
  rw [quoted, meant, named, padded]
  exact ⟨rfl, upper_joined_eq_iff store cut⟩

/-- A single digit behind a period is kept. -/
theorem name_eq_upper_text_iff_index :
    ∃ created range,
      Expr.read "&(v&i.5)" = .ok (.unresolved
        [.variableTerm ⟨.created created, [], range⟩ none] (.columns 0 8)) ∧
      ∀ store, ((VariableName.created created).evaluate store).value =
        upper ("v" ++ (store.text "I" ++ "5")) := by
  let text := ['v', '&', 'i', '.', '5']
  have plain : IsPlainText text := by
    simp [IsPlainText, text, isNameChar, isNameStart]
  have source : creation text = "&(v&i.5)" := by decide
  have size : (creation text).utf8ByteSize = 8 := by
    rw [source]
    decide
  have read : Expr.read (creation text) = .ok (.unresolved
      [.variableTerm ⟨.created [.text "V", .variableItem ⟨.basic "I", [], .columns 3 5⟩, .text "5"],
        [], .columns 0 8⟩ none] (.columns 0 8)) := by
    rw [source]
    cbv
  obtain ⟨created, range, isCreated, _, named⟩ := name_eq_upper_text_iff plain read
  refine ⟨created, range, ?_, fun store => ?_⟩
  · rw [← source, read, isCreated, size]
  · have unpadded : padsNumber true text = false := by decide
    have meaning : spliced store text = "v" ++ (store.text "I" ++ "5") := by
      simp [text, spliced, isNameChar, isNameStart, nameOf, Chain.dropPeriod]
    obtain ⟨meant, same⟩ := named store
    rw [same.mpr unpadded, meant, meaning]

/-- The zero in front of the one is lost in a name but not between quotes. -/
theorem leading_zero_lost :
    let store := Store.empty.setVariable "I" (.arithmetic 5)
    let created : Chain :=
      [.text "V", .variableItem ⟨.basic "I", [], .columns 3 5⟩, .text "1"]
    let quoted : Chain :=
      [.text "V", .variableItem ⟨.basic "I", [], .columns 2 4⟩, .text "01"]
    Expr.read "&(V&I.01)" = .ok (.unresolved
        [.variableTerm ⟨.created created, [], .columns 0 9⟩ none] (.columns 0 9)) ∧
      Expr.read "'V&I.01'" = .ok (.unresolved
        [.string ⟨none, quoted, .whole⟩ (.columns 0 8) none] (.columns 0 8)) ∧
      ((VariableName.created created).evaluate store).value = "V51" ∧
      upper (evaluateChain store quoted).value = "V501" := by
  intro store created quoted
  have held : store.text "I" = "5" := by
    rw [Store.text, Store.value?_setVariable_self]
    rfl
  have written (digits : String) (range : Range) :
      (evaluateChain store [.text "V", .variableItem ⟨.basic "I", [], range⟩, .text digits]).value =
        "V" ++ ("5" ++ (digits ++ "")) := by
    have behind := Chain.value_evaluateChain_reference store "I" range [.text digits]
    rw [held] at behind
    simp only [evaluateChain, ChainItem.evaluate] at behind ⊢
    exact congrArg ("V" ++ ·) behind
  refine ⟨by cbv, by cbv, ?_, ?_⟩
  · rw [VariableName.evaluate, Reported.value_map, written]
    simp [upper, String.ext_iff]
  · rw [written]
    simp [upper, String.ext_iff]

end ConditionalAssembly
