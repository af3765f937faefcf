import ConditionalAssembly.Proofs.CommandLine.Writing

/-!
# The forms of arguments

An assignment is meant to be written `NAME=VALUE` or `NAME(INDEX)=VALUE`, and a
definition `NAME=VALUE`, `NAME=VALUE,TYPE` or `NAME=VALUE,TYPE,LENGTH`.  Reading
is laxer than that: it drops the parentheses at the end of an index without
counting them, takes a closing parenthesis for a part of a name, and passes over
whatever follows the length.
-/

namespace ConditionalAssembly

/-! ## Numerals -/

namespace Decimal

/-- The characters are digits after at most one sign, and denote a word. -/
inductive Numeral : List Char → Int32 → Prop where
  | unsigned {digits : List Char} {word : Int32} :
      digits ≠ [] → digits.all Char.isDigit → word.toInt = value digits → Numeral digits word
  | plus {digits : List Char} {word : Int32} :
      digits ≠ [] → digits.all Char.isDigit → word.toInt = value digits →
      Numeral ('+' :: digits) word
  | minus {digits : List Char} {word : Int32} :
      digits ≠ [] → digits.all Char.isDigit → word.toInt = -(value digits : Int) →
      Numeral ('-' :: digits) word

theorem toNat?_eq_some_iff {digits : List Char} {n : Nat} :
    toNat? digits = some n ↔ digits ≠ [] ∧ digits.all Char.isDigit ∧ value digits = n := by
  simp [toNat?, and_assoc]

theorem toNat?_of_all {digits : List Char} (nonempty : digits ≠ [])
    (all : digits.all Char.isDigit) : toNat? digits = some (value digits) :=
  toNat?_eq_some_iff.mpr ⟨nonempty, all, rfl⟩

/-- An integer is denoted by digits, perhaps with a sign in front of them. -/
theorem toInt?_cases {cs : List Char} {n : Int} (denotes : toInt? cs = some n) :
    ∃ digits, toNat? digits = some (value digits) ∧
      (cs = '-' :: digits ∧ n = -(value digits : Int) ∨
        cs = '+' :: digits ∧ n = value digits ∨ cs = digits ∧ n = value digits) := by
  unfold toInt? at denotes
  split at denotes
  all_goals
    rcases Option.map_eq_some_iff.mp denotes with ⟨_, found, rfl⟩
    rcases Option.bind_eq_some_iff.mp found with ⟨number, digits, same⟩
    cases same
    have whole := toNat?_eq_some_iff.mp digits
    rw [← whole.2.2] at digits ⊢
  · exact ⟨_, digits, .inl ⟨rfl, rfl⟩⟩
  · exact ⟨_, digits, .inr (.inl ⟨rfl, rfl⟩)⟩
  · exact ⟨_, digits, .inr (.inr ⟨rfl, rfl⟩)⟩

/-- The texts that are read as a word are its numerals. -/
theorem toWord?_eq_some_iff {cs : List Char} {word : Int32} :
    toWord? (String.ofList cs) = some word ↔ Numeral cs word := by
  rw [toWord?, String.toList_ofList, Option.bind_eq_some_iff]
  constructor
  · rintro ⟨n, denotes, fits⟩
    have same := Word.ofInt?_eq_some_iff.mp fits
    rcases toInt?_cases denotes with ⟨digits, isNumber, signed⟩
    rcases toNat?_eq_some_iff.mp isNumber with ⟨nonempty, all, _⟩
    rcases signed with ⟨rfl, rfl⟩ | ⟨rfl, rfl⟩ | ⟨rfl, rfl⟩
    · exact .minus nonempty all same
    · exact .plus nonempty all same
    · exact .unsigned nonempty all same
  · intro numeral
    refine ⟨word.toInt, ?_, Word.ofInt?_eq_some_iff.mpr rfl⟩
    cases numeral with
    | unsigned nonempty all same =>
        rw [toInt?_of_all all, toNat?_of_all nonempty all, same]
        rfl
    | plus nonempty all same =>
        rw [toInt?, toNat?_of_all nonempty all, same]
        rfl
    | minus nonempty all same =>
        rw [toInt?, toNat?_of_all nonempty all, same]
        rfl

/-- A numeral is made of digits and signs. -/
theorem Numeral.mem_cases {cs : List Char} {word : Int32} (numeral : Numeral cs word) {c : Char}
    (isChar : c ∈ cs) : c.isDigit ∨ c = '+' ∨ c = '-' := by
  cases numeral with
  | unsigned _ all _ => exact .inl (List.all_eq_true.mp all c isChar)
  | plus _ all _ =>
      rcases List.mem_cons.mp isChar with rfl | isDigit
      · exact .inr (.inl rfl)
      · exact .inl (List.all_eq_true.mp all c isDigit)
  | minus _ all _ =>
      rcases List.mem_cons.mp isChar with rfl | isDigit
      · exact .inr (.inr rfl)
      · exact .inl (List.all_eq_true.mp all c isDigit)

end Decimal

/-! ## Parts of a text -/

namespace Text

/-- A text that has a separator is cut around the first one. -/
theorem splitFirst?_eq (separator : Char) (cs : List Char) :
    splitFirst? separator cs =
      if separator ∈ cs then
        some (cs.takeWhile (· ≠ separator), (cs.dropWhile (· ≠ separator)).tail)
      else none := by
  induction cs with
  | nil => rfl
  | cons c cs ih =>
      by_cases same : c = separator
      · simp [splitFirst?, same]
      · by_cases occurs : separator ∈ cs <;>
          simp [splitFirst?, same, Ne.symm same, ih, occurs]

theorem splitAll_of_not_mem {separator : Char} {cs : List Char} (absent : separator ∉ cs) :
    splitAll separator cs = (cs, []) := by
  induction cs with
  | nil => rfl
  | cons c cs ih =>
      rw [List.mem_cons, not_or] at absent
      simp [splitAll, ih absent.2, Ne.symm absent.1]

theorem splitAll_append {separator : Char} {first : List Char} (absent : separator ∉ first)
    (cs : List Char) :
    splitAll separator (first ++ separator :: cs) =
      (first, (splitAll separator cs).1 :: (splitAll separator cs).2) := by
  induction first with
  | nil => simp [splitAll]
  | cons c first ih =>
      rw [List.mem_cons, not_or] at absent
      simp [splitAll, ih absent.2, Ne.symm absent.1]

/-- A text is its parts with a separator in front of each but the first. -/
theorem eq_of_splitAll {separator : Char} {cs first : List Char} {rest : List (List Char)}
    (parts : splitAll separator cs = (first, rest)) :
    cs = first ++ rest.flatMap (separator :: ·) ∧ separator ∉ first ∧
      ∀ part ∈ rest, separator ∉ part := by
  induction cs generalizing first rest with
  | nil =>
      cases parts
      simp
  | cons c cs ih =>
      rcases ih rfl with ⟨whole, absent, absentBehind⟩
      by_cases same : c = separator
      · subst same
        rw [splitAll, if_pos rfl] at parts
        cases parts
        exact ⟨congrArg (c :: ·) whole, List.not_mem_nil, List.forall_mem_cons.mpr
          ⟨absent, absentBehind⟩⟩
      · rw [splitAll, if_neg same] at parts
        cases parts
        refine ⟨congrArg (c :: ·) whole, ?_, absentBehind⟩
        exact List.not_mem_cons_of_ne_of_not_mem (Ne.symm same) absent

end Text

/-! ## Assignments -/

namespace CommandLine

open Decimal Text

/-- What stands in front of the first equals sign of an argument. -/
def frontOf (argument : String) : List Char :=
  argument.toList.takeWhile (· ≠ '=')

/-- What stands behind the first equals sign of an argument. -/
def textOf (argument : String) : List Char :=
  (argument.toList.dropWhile (· ≠ '=')).tail

/-- The target of an assignment, without blanks around it and without ampersands in front. -/
def targetOf (argument : String) : List Char :=
  (trimChars (frontOf argument)).dropWhile (· == '&')

theorem splitFirst?_argument (argument : String) :
    splitFirst? '=' argument.toList =
      if '=' ∈ argument.toList then some (frontOf argument, textOf argument) else none :=
  splitFirst?_eq '=' argument.toList

/-- The forms `NAME` and `NAME(INDEX)` with the name and the index. -/
inductive Target : List Char → List Char → Option Int32 → Prop where
  | whole {name : List Char} : '(' ∉ name → ')' ∉ name → Target name name none
  | element {name index : List Char} {word : Int32} :
      '(' ∉ name → ')' ∉ name → Numeral index word →
      Target (name ++ '(' :: (index ++ [')'])) name (some word)

/-- The forms that are read, in which closing parentheses may stand in a name, and in any number
behind an index. -/
inductive LooseTarget : List Char → List Char → Option Int32 → Prop where
  | whole {name : List Char} : '(' ∉ name → LooseTarget name name none
  | element {name index closing : List Char} {word : Int32} :
      '(' ∉ name → Numeral index word → closing.all (· == ')') →
      LooseTarget (name ++ '(' :: (index ++ closing)) name (some word)

/-- The parentheses of a text, in order. -/
def parentheses (cs : List Char) : List Char :=
  cs.filter fun c => c == '(' || c == ')'

theorem parentheses_eq_nil_iff {cs : List Char} :
    parentheses cs = [] ↔ '(' ∉ cs ∧ ')' ∉ cs := by
  simp only [parentheses, List.filter_eq_nil_iff, Bool.or_eq_true, beq_iff_eq, not_or]
  constructor
  · intro absent
    exact ⟨fun opening => (absent _ opening).1 rfl, fun closing => (absent _ closing).2 rfl⟩
  · rintro ⟨noOpening, noClosing⟩ c isChar
    exact ⟨ne_of_mem_of_not_mem isChar noOpening, ne_of_mem_of_not_mem isChar noClosing⟩

theorem parentheses_element (name index closing : List Char) :
    parentheses (name ++ '(' :: (index ++ closing)) =
      parentheses name ++ '(' :: (parentheses index ++ parentheses closing) := by
  simp [parentheses]

theorem mem_of_parentheses {c : Char} {cs : List Char} (isMark : c ∈ parentheses cs) : c ∈ cs :=
  List.mem_of_mem_filter isMark

theorem parentheses_closing {closing : List Char} (all : closing.all (· == ')')) :
    parentheses closing = closing := by
  rw [parentheses, List.filter_eq_self]
  intro c isMark
  rw [List.all_eq_true.mp all c isMark, Bool.or_true]

/-- A numeral has no parentheses. -/
theorem parentheses_numeral {index : List Char} {word : Int32} (numeral : Numeral index word) :
    parentheses index = [] := by
  rw [parentheses, List.filter_eq_nil_iff]
  intro c isChar
  rcases numeral.mem_cases isChar with digit | rfl | rfl
  · have different : c ≠ '(' ∧ c ≠ ')' := by
      constructor <;> rintro rfl <;> exact absurd digit (by decide)
    simpa using different
  · decide
  · decide

theorem exists_append_dropClosing (cs : List Char) :
    ∃ closing : List Char, closing.all (· == ')') ∧ cs = dropClosing cs ++ closing := by
  refine ⟨(cs.reverse.takeWhile (· == ')')).reverse, ?_, ?_⟩
  · rw [List.all_reverse, List.all_eq_true]
    intro c isMark
    exact List.mem_takeWhile_imp (p := (· == ')')) isMark
  · rw [dropClosing, ← List.reverse_append, List.takeWhile_append_dropWhile, List.reverse_reverse]

/-- A target is read by cutting it at its first opening parenthesis. -/
theorem looseTarget_iff {cs name : List Char} {index : Option Int32} :
    LooseTarget cs name index ↔
      '(' ∉ cs ∧ name = cs ∧ index = none ∨
        ∃ subscript word, splitFirst? '(' cs = some (name, subscript) ∧
          toWord? (String.ofList (dropClosing subscript)) = some word ∧ index = some word := by
  constructor
  · intro loose
    cases loose with
    | whole noOpening => exact .inl ⟨noOpening, rfl, rfl⟩
    | @element _ numeral closing word noOpening isNumeral all =>
        have noClosing : ')' ∉ numeral := by
          intro isChar
          simpa using isNumeral.mem_cases isChar
        refine .inr ⟨_, word, splitFirst?_eq_some_iff.mpr ⟨rfl, noOpening⟩, ?_, rfl⟩
        rw [dropClosing_append noClosing all]
        exact toWord?_eq_some_iff.mpr isNumeral
  · rintro (⟨noOpening, rfl, rfl⟩ | ⟨subscript, word, cut, read, rfl⟩)
    · exact .whole noOpening
    · rcases splitFirst?_eq_some_iff.mp cut with ⟨rfl, noOpening⟩
      rcases exists_append_dropClosing subscript with ⟨closing, all, whole⟩
      rw [whole]
      exact .element noOpening (toWord?_eq_some_iff.mp read) all

/-- An argument is parsed to what its target and its text say. -/
theorem Assignment.parse_eq_ok_iff {argument : String} {assignment : Assignment} :
    Assignment.parse argument = .ok assignment ↔
      '=' ∈ argument.toList ∧
        ∃ name, LooseTarget (targetOf argument) name assignment.index ∧
          assignment.name = nameOf name ∧
          assignment.value = valueOf (String.ofList (textOf argument)) := by
  rcases assignment with ⟨target, index, value⟩
  simp only [looseTarget_iff]
  unfold parse
  rw [splitFirst?_argument]
  by_cases signed : '=' ∈ argument.toList
  · simp only [signed, if_true, true_and]
    rw [← targetOf]
    cases cut : splitFirst? '(' (targetOf argument) with
    | none =>
        have noOpening : '(' ∉ targetOf argument := by
          intro occurs
          simp [splitFirst?_eq, occurs] at cut
        simp [noOpening, eq_comm, and_left_comm]
    | some parts =>
        rcases parts with ⟨name, subscript⟩
        have opening : '(' ∈ targetOf argument := by
          simp [(splitFirst?_eq_some_iff.mp cut).1]
        cases read : toWord? (String.ofList (dropClosing subscript)) with
        | none => simp [opening, read]
        | some word => simp [opening, read, eq_comm, and_left_comm]
  · simp [signed]

/-- A target that is read is one of the forms when its parentheses are none or one pair. -/
theorem target_iff_looseTarget {cs name : List Char} {index : Option Int32} :
    Target cs name index ↔
      LooseTarget cs name index ∧ (parentheses cs = [] ∨ parentheses cs = ['(', ')']) := by
  constructor
  · rintro (⟨noOpening, noClosing⟩ | ⟨noOpening, noClosing, numeral⟩)
    · exact ⟨.whole noOpening, .inl (parentheses_eq_nil_iff.mpr ⟨noOpening, noClosing⟩)⟩
    · refine ⟨.element noOpening numeral (by decide), .inr ?_⟩
      rw [parentheses_element, parentheses_eq_nil_iff.mpr ⟨noOpening, noClosing⟩,
        parentheses_numeral numeral]
      rfl
  · rintro ⟨⟨noOpening⟩ | ⟨noOpening, numeral, all⟩, pattern⟩
    · rcases pattern with none | pair
      · exact .whole noOpening (parentheses_eq_nil_iff.mp none).2
      · exact absurd (mem_of_parentheses (pair ▸ List.mem_cons_self)) noOpening
    · rw [parentheses_element, parentheses_numeral numeral, parentheses_closing all,
        List.nil_append] at pattern
      have firstName : parentheses name = [] := by
        cases marks : parentheses name with
        | nil => rfl
        | cons c rest =>
            have isMark : c ∈ name := mem_of_parentheses (marks ▸ List.mem_cons_self)
            simp only [marks, List.cons_append, reduceCtorEq, List.cons.injEq, false_or] at pattern
            exact absurd (pattern.1 ▸ isMark) noOpening
      rw [firstName] at pattern
      have single := by simpa using pattern
      subst single
      exact .element noOpening (parentheses_eq_nil_iff.mp firstName).2 numeral

/-! ## Definitions -/

/-- The fields `VALUE`, `VALUE,TYPE` and `VALUE,TYPE,LENGTH` behind the equals sign of a definition,
each perhaps with blanks around it. -/
inductive Fields : List Char → OrdinarySymbol → Prop where
  | value {first : List Char} {value : Int32} :
      ',' ∉ first → Numeral (trimChars first) value → Fields first { value }
  | typed {first second : List Char} {value : Int32} {type : Char} :
      ',' ∉ first → ',' ∉ second → Numeral (trimChars first) value →
      (trimChars second).head? = some type →
      Fields (first ++ ',' :: second) { value, type := type.toUpper }
  | sized {first second third : List Char} {value length : Int32} {type : Char} :
      ',' ∉ first → ',' ∉ second → ',' ∉ third → Numeral (trimChars first) value →
      (trimChars second).head? = some type → Numeral (trimChars third) length →
      Fields (first ++ ',' :: (second ++ ',' :: third)) { value, type := type.toUpper, length }

/-- The fields that are read, behind which more may follow if all three of them are there. -/
inductive LooseFields : List Char → OrdinarySymbol → Prop where
  | exact {text : List Char} {symbol : OrdinarySymbol} :
      Fields text symbol → LooseFields text symbol
  | more {text behind : List Char} {symbol : OrdinarySymbol} :
      Fields text symbol → text.count ',' = 2 → LooseFields (text ++ ',' :: behind) symbol

theorem Fields.count_le {text : List Char} {symbol : OrdinarySymbol} (fields : Fields text symbol) :
    text.count ',' ≤ 2 := by
  cases fields with
  | value noFirst _ => simp [List.count_eq_zero.mpr noFirst]
  | typed noFirst noSecond _ _ =>
      simp [List.count_eq_zero.mpr noFirst, List.count_eq_zero.mpr noSecond]
  | sized noFirst noSecond noThird _ _ _ =>
      simp [List.count_eq_zero.mpr noFirst, List.count_eq_zero.mpr noSecond,
        List.count_eq_zero.mpr noThird]

/-- Fields that are read are as they should be when no more than two commas stand in them. -/
theorem fields_iff_looseFields {text : List Char} {symbol : OrdinarySymbol} :
    Fields text symbol ↔ LooseFields text symbol ∧ text.count ',' ≤ 2 := by
  constructor
  · intro fields
    exact ⟨.exact fields, fields.count_le⟩
  · rintro ⟨fields | ⟨_, two⟩, few⟩
    · exact fields
    · rw [List.count_append, two, List.count_cons_self] at few
      omega

/-- An argument is parsed to what its name and its fields say. -/
theorem Definition.parse_of_looseFields {argument : String} (signed : '=' ∈ argument.toList)
    {symbol : OrdinarySymbol} (loose : LooseFields (textOf argument) symbol) :
    Definition.parse argument =
      .ok ⟨nameOf (trimChars (frontOf argument)), symbol⟩ := by
  unfold parse
  simp only [splitFirst?_argument, signed, if_true, Option.bind_eq_bind, Option.bind_some]
  generalize textOf argument = text at loose
  rcases loose with fields | ⟨fields, two⟩
  · cases fields with
    | value noFirst isValue =>
        simp [splitAll_of_not_mem noFirst, toWord?_eq_some_iff.mpr isValue]
    | typed noFirst noSecond isValue isType =>
        simp [splitAll_append noFirst, splitAll_of_not_mem noSecond,
          toWord?_eq_some_iff.mpr isValue, isType]
    | sized noFirst noSecond noThird isValue isType isLength =>
        simp [splitAll_append noFirst, splitAll_append noSecond, splitAll_of_not_mem noThird,
          toWord?_eq_some_iff.mpr isValue, isType, toWord?_eq_some_iff.mpr isLength]
  · cases fields with
    | value noFirst _ => simp [List.count_eq_zero.mpr noFirst] at two
    | typed noFirst noSecond _ _ =>
        simp [List.count_eq_zero.mpr noFirst, List.count_eq_zero.mpr noSecond] at two
    | sized noFirst noSecond noThird isValue isType isLength =>
        simp [splitAll_append noFirst, splitAll_append noSecond, splitAll_append noThird,
          toWord?_eq_some_iff.mpr isValue, isType, toWord?_eq_some_iff.mpr isLength]

/-- Parts between commas are read as three fields when the first three of them can be. -/
theorem LooseFields.of_parts {first second third : List Char} {value length : Int32} {type : Char}
    (noFirst : ',' ∉ first) (noSecond : ',' ∉ second) (noThird : ',' ∉ third)
    (isValue : Numeral (trimChars first) value) (isType : (trimChars second).head? = some type)
    (isLength : Numeral (trimChars third) length) (more : List (List Char)) :
    LooseFields (first ++ (second :: third :: more).flatMap (',' :: ·))
      { value, type := type.toUpper, length } := by
  have fields := Fields.sized noFirst noSecond noThird isValue isType isLength
  cases more with
  | nil => simpa using LooseFields.exact fields
  | cons fourth more =>
      have two : (first ++ ',' :: (second ++ ',' :: third)).count ',' = 2 := by
        simp [List.count_eq_zero.mpr noFirst, List.count_eq_zero.mpr noSecond,
          List.count_eq_zero.mpr noThird]
      have behind := @LooseFields.more _ (fourth ++ more.flatMap (',' :: ·)) _ fields two
      simpa using behind

/-- What is parsed as a definition has fields that are read. -/
theorem Definition.looseFields_of_parse {argument : String} {definition : Definition}
    (parsed : Definition.parse argument = .ok definition) :
    '=' ∈ argument.toList ∧ LooseFields (textOf argument) definition.symbol ∧
      definition.name = nameOf (trimChars (frontOf argument)) := by
  rcases definition with ⟨name, symbol⟩
  unfold parse at parsed
  rw [splitFirst?_argument] at parsed
  by_cases signed : '=' ∈ argument.toList
  · simp only [signed, if_true, Option.bind_eq_bind, Option.bind_some] at parsed
    rcases parts : splitAll ',' (textOf argument) with ⟨first, rest⟩
    rcases eq_of_splitAll parts with ⟨whole, noFirst, absent⟩
    rw [parts] at parsed
    rw [whole]
    cases isValue : toWord? (String.ofList (trimChars first)) with
    | none => simp [isValue] at parsed
    | some value =>
        have numeral := toWord?_eq_some_iff.mp isValue
        rcases rest with _ | ⟨second, rest⟩
        · rcases (by simpa [isValue] using parsed : nameOf (trimChars (frontOf argument)) = name ∧
            { value } = symbol) with ⟨rfl, rfl⟩
          exact ⟨signed, by simpa using LooseFields.exact (.value noFirst numeral), rfl⟩
        · rw [List.forall_mem_cons] at absent
          cases isType : (trimChars second).head? with
          | none => simp [isValue, isType] at parsed
          | some type =>
              rcases rest with _ | ⟨third, more⟩
              · rcases (by simpa [isValue, isType] using parsed :
                  nameOf (trimChars (frontOf argument)) = name ∧
                    { value, type := type.toUpper } = symbol) with ⟨rfl, rfl⟩
                have fields := Fields.typed noFirst absent.1 numeral isType
                exact ⟨signed, by simpa using LooseFields.exact fields, rfl⟩
              · rw [List.forall_mem_cons] at absent
                cases isLength : toWord? (String.ofList (trimChars third)) with
                | none => simp [isValue, isType, isLength] at parsed
                | some length =>
                    rcases (by simpa [isValue, isType, isLength] using parsed :
                      nameOf (trimChars (frontOf argument)) = name ∧
                        { value, type := type.toUpper, length } = symbol) with ⟨rfl, rfl⟩
                    exact ⟨signed, .of_parts noFirst absent.1 absent.2.1 numeral isType
                      (toWord?_eq_some_iff.mp isLength) more, rfl⟩
  · simp [signed] at parsed

/-! ## Arguments as they should be written -/

/-- The argument assigns a value to `NAME` or to `NAME(INDEX)`. -/
def Assignment.Documented (argument : String) : Prop :=
  '=' ∈ argument.toList ∧ ∃ name index, Target (targetOf argument) name index

/-- The argument gives a name `VALUE`, `VALUE,TYPE` or `VALUE,TYPE,LENGTH`. -/
def Definition.Documented (argument : String) : Prop :=
  '=' ∈ argument.toList ∧ ∃ symbol, Fields (textOf argument) symbol

/-- Which arguments are accepted, what they mean, and which of those that are
accepted are written as they should be: assignments that have no parentheses in
their target or just one pair, and definitions of at most three fields. -/
theorem arguments_accepted (argument : String) :
    (∀ assignment : Assignment, Assignment.parse argument = .ok assignment ↔
      '=' ∈ argument.toList ∧
        ∃ name, LooseTarget (targetOf argument) name assignment.index ∧
          assignment.name = nameOf name ∧
          assignment.value = valueOf (String.ofList (textOf argument))) ∧
    (Assignment.Documented argument ↔
      (∃ assignment, Assignment.parse argument = .ok assignment) ∧
        (parentheses (targetOf argument) = [] ∨ parentheses (targetOf argument) = ['(', ')'])) ∧
    (∀ definition : Definition, Definition.parse argument = .ok definition ↔
      '=' ∈ argument.toList ∧ LooseFields (textOf argument) definition.symbol ∧
        definition.name = nameOf (trimChars (frontOf argument))) ∧
    (Definition.Documented argument ↔
      (∃ definition, Definition.parse argument = .ok definition) ∧
        (textOf argument).count ',' ≤ 2) := by
  constructor
  · intro assignment
    exact Assignment.parse_eq_ok_iff
  constructor
  · simp only [Assignment.Documented, target_iff_looseTarget, Assignment.parse_eq_ok_iff]
    constructor
    · rintro ⟨signed, name, index, loose, pattern⟩
      refine ⟨⟨⟨nameOf name, index, valueOf (String.ofList (textOf argument))⟩, signed, name, loose,
        ?_⟩, pattern⟩
      simp only [and_self]
    · rintro ⟨⟨assignment, signed, name, loose, _⟩, pattern⟩
      exact ⟨signed, name, assignment.index, loose, pattern⟩
  constructor
  · intro definition
    constructor
    · exact Definition.looseFields_of_parse
    · rintro ⟨signed, loose, named⟩
      rw [Definition.parse_of_looseFields signed loose, ← named]
  · simp only [Definition.Documented, fields_iff_looseFields]
    constructor
    · rintro ⟨signed, symbol, loose, few⟩
      exact ⟨⟨_, Definition.parse_of_looseFields signed loose⟩, few⟩
    · rintro ⟨⟨definition, parsed⟩, few⟩
      rcases Definition.looseFields_of_parse parsed with ⟨signed, loose, _⟩
      exact ⟨signed, definition.symbol, loose, few⟩

/-- An index may be left open or be closed twice, a name may hold a closing parenthesis, and a
definition may have a fourth field. -/
theorem surplus_marks_accepted :
    (∃ assignment, Assignment.parse "A(1=5" = .ok assignment) ∧ ¬ Assignment.Documented "A(1=5" ∧
    (∃ assignment, Assignment.parse "A(1))=5" = .ok assignment) ∧
      ¬ Assignment.Documented "A(1))=5" ∧
    (∃ assignment, Assignment.parse "A)=5" = .ok assignment) ∧ ¬ Assignment.Documented "A)=5" ∧
    (∃ definition, Definition.parse "F=1,C,2,3" = .ok definition) ∧
      ¬ Definition.Documented "F=1,C,2,3" := by
  have marked {argument : String} {marks : List Char}
      (marked : parentheses (targetOf argument) = marks)
      (unlike : ¬ (marks = [] ∨ marks = ['(', ')'])) : ¬ Assignment.Documented argument := by
    rintro ⟨_, name, index, target⟩
    exact unlike (marked ▸ (target_iff_looseTarget.mp target).2)
  have commas : (textOf "F=1,C,2,3").count ',' = 3 := by cbv
  refine ⟨⟨_, rfl⟩, ?_, ⟨_, rfl⟩, ?_, ⟨_, rfl⟩, ?_, ⟨_, rfl⟩, ?_⟩
  · exact @marked "A(1=5" ['('] (by cbv) (by decide)
  · exact @marked "A(1))=5" ['(', ')', ')'] (by cbv) (by decide)
  · exact @marked "A)=5" [')'] (by cbv) (by decide)
  · rintro ⟨_, symbol, fields⟩
    exact absurd (commas ▸ fields.count_le) (by decide)

end CommandLine

end ConditionalAssembly
