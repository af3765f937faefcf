import ConditionalAssembly.CommandLine.Run
import ConditionalAssembly.Proofs.CommandLine.Writing
import ConditionalAssembly.Proofs.Evaluation.Parentheses
import ConditionalAssembly.Proofs.Token.Lexing

/-!
# Assigned variables

A variable that was assigned is found again by an expression, which may spell
the name in another letter case.  The index goes another way than on its
assignment: it is read as an expression of its own, resolved and evaluated, and
still gives the same word.
-/

namespace ConditionalAssembly

open CommandLine Evaluation Grammar Text Token

/-! ## Reading -/

/-- The variable is resolved without a diagnostic to one that is looked up by the name and the
subscript. -/
def VariableSymbol.Denotes (reference : VariableSymbol) (name : String) (subscript : List Int32) :
    Prop :=
  ∃ resolved : VariableSymbol, reference.resolve = pure resolved ∧
    ∀ store, resolved.evaluate store = pure (variableValue store name subscript)

namespace VariableSymbol

theorem denotes_bare (name : String) (range : Range) :
    Denotes ⟨.basic name, [], range⟩ name [] :=
  ⟨⟨.basic name, [], range⟩, rfl, fun _ => rfl⟩

/-- A constant that is an index is resolved to a list around it, which has its value. -/
theorem denotes_element (name : String) (word : Int32) (index place range : Range) :
    Denotes ⟨.basic name, [.unresolved [.constant word index none] place], range⟩ name [word] := by
  let constant := Expr.constant word index (some .arithmetic)
  let tree := Expr.resolved constant false place .arithmetic
  have resolved : (Expr.unresolved [.constant word index none] place).resolveWith .arithmetic =
      pure tree := @Expr.resolve_single (.constant word index none) .arithmetic rfl place
  refine ⟨⟨.basic name, [tree], range⟩, ?_, fun store => ?_⟩
  · rw [resolve, resolveNumbers, resolved]
    rfl
  · have evaluated : tree.evaluate store = pure (.arithmetic word) := by
      have same := @Expr.evaluate_resolved_of_domain store constant .arithmetic rfl place
      rw [same, Expr.evaluate]
      rfl
    rw [evaluate, VariableName.evaluate, evaluateWords, evaluated]
    rfl

end VariableSymbol

theorem isName_of_upper_eq {name other : String} (same : upper name = upper other)
    (valid : isName other.toList) : isName name.toList := by
  have letters := congrArg String.toList same
  rw [upper, upper, String.toList_map, String.toList_map] at letters
  rwa [← isName_map_toUpper, letters, isName_map_toUpper]

/-- A variable is read with its index, if it has one. -/
theorem exists_read_subscripted {name : String} (valid : isName name.toList)
    {index : Option Int32} (nonneg : ∀ word ∈ index, 0 ≤ word.toInt) :
    ∃ reference range,
      Expr.read ("&" ++ subscripted name index) =
        .ok (.unresolved [.variableTerm reference none] range) ∧
      reference.Denotes (upper name) index.toList := by
  obtain ⟨placed, isName, stops, lexesName⟩ : ∃ placed : PlacedToken,
      placed.token = .variableName (nameOf name.toList) ∧
        placed.stop = 0 + byteCount ('&' :: name.toList) ∧
        Lexes 0 ('&' :: name.toList) [placed] :=
    ⟨_, rfl, rfl, lexes_reference 0 valid⟩
  rw [nameOf_toList] at isName
  cases index with
  | none =>
      have source : "&" ++ subscripted name none = String.ofList ('&' :: name.toList) := by
        simp [subscripted]
      have derived := Fragment.variableTerm (.basic isName) .none
      have read := read_of_derives lexesName.listOf derived.single
      rw [← source] at read
      exact ⟨_, _, read, VariableSymbol.denotes_bare _ _⟩
  | some word =>
      have natural := nonneg word rfl
      have exists_numeral (offset : Nat) : ∃ numeral : PlacedToken,
          numeral.token = .integer word.toInt.toNat ∧
            Lexes offset (Decimal.ofWord word).toList [numeral] :=
        ⟨_, rfl, lexes_ofWord offset natural⟩
      obtain ⟨numeral, isNumeral, lexesNumeral⟩ := exists_numeral _
      obtain ⟨close, closes, _, lexesClose⟩ := Lexes.exists_mark ')' rfl lexes_nil
      obtain ⟨opener, opens, starts, lexesOpener⟩ :=
        (lexesNumeral.append lexesClose).exists_mark '(' rfl
      have source : "&" ++ subscripted name (some word) = String.ofList
          ('&' :: name.toList ++ '(' :: ((Decimal.ofWord word).toList ++ [')'])) := by
        simp [subscripted, String.ext_iff]
      have arguments := Arguments.last (Fragment.constant natural isNumeral).single closes
      have derived := Fragment.variableTerm (.basic isName)
        (.some opens (starts.trans stops.symm) arguments (by simp))
      have read := read_of_derives (lexesName.append lexesOpener).listOf derived.single
      rw [← source] at read
      exact ⟨_, _, read, VariableSymbol.denotes_element _ _ _ _ _⟩

/-! ## Loading -/

/-- What was assigned is found under the name and the index. -/
theorem CommandLine.Assignment.value?_apply (store : Store) (assignment : Assignment) :
    (assignment.apply store).value? assignment.name assignment.index.toList =
      some assignment.value := by
  rcases assignment with ⟨name, _ | index, value⟩
  · exact (store.value?_setVariable_self name value []).trans (if_pos rfl)
  · exact (store.value?_setElement_self name index index value).trans (if_pos rfl)

/-! ## Calculating -/

/-- A variable that holds a value has this value in the domain of the value. -/
theorem Expr.evaluate_variableTerm {reference : VariableSymbol} {name : String}
    {subscript : List Int32} (denotes : reference.Denotes name subscript) {store : Store}
    {value : Value} (held : store.value? name subscript = some value) (fits : value.Fits) :
    (Expr.variableTerm reference none).resolve value.domain >>= Expr.evaluate store =
      pure value := by
  obtain ⟨resolved, resolves, looked⟩ := denotes
  have found : resolved.evaluate store = pure (.ok value) := by
    rw [looked, variableValue, held]
  have term : (Expr.variableTerm reference none).resolve value.domain =
      pure (.variableTerm resolved (some value.domain)) := by
    rw [Expr.resolve, Expr.resolveWith, resolves, OperatorTable.domain_ofDomain]
    rfl
  rw [term]
  change (Expr.variableTerm resolved (some value.domain)).evaluate store = pure value
  rw [Expr.evaluate, found]
  exact settle_of_fits fits resolved.range

/-- An assignment, with an ampersand in front or without, is parsed, and what it assigns is the
value of the variable for an expression, whatever the case of the letters. -/
theorem calculateSource_load {target reference : String} (valid : isName target.toList)
    (same : upper reference = upper target) {index : Option Int32}
    (nonneg : ∀ word ∈ index, 0 ≤ word.toInt) {text : String} {value : Value}
    (writes : Writes text value) (fits : value.Fits) (context : Context) :
    ∃ assignment,
      Assignment.parse (subscripted target index ++ "=" ++ text) = .ok assignment ∧
      Assignment.parse ("&" ++ subscripted target index ++ "=" ++ text) = .ok assignment ∧
      (context.load [assignment] []).calculateSource value.domain
          ("&" ++ subscripted reference index) =
        .ok (value, context.load [assignment] []) := by
  let assignment : Assignment := ⟨upper target, index, value⟩
  let loaded := context.load [assignment] []
  have unmarked := @Assignment.parse_written [] rfl target valid index text value writes
  have marked := @Assignment.parse_written ['&'] rfl target valid index text value writes
  have held : loaded.store.value? (upper reference) index.toList = some value := by
    rw [same]
    exact Assignment.value?_apply context.store assignment
  obtain ⟨found, range, read, denotes⟩ :=
    exists_read_subscripted (isName_of_upper_eq same valid) nonneg
  have calculated := Context.calculateSource_of_read read value.domain loaded
  rw [Expr.evaluate_single rfl rfl, Expr.evaluate_variableTerm denotes held fits] at calculated
  refine ⟨assignment, ?_, marked, ?_⟩
  · simpa using unmarked
  · simpa [Context.record] using calculated

/-- An element is assigned in small letters and found in mixed ones, with all that stands between
the quotes. -/
theorem calculateSource_load_element :
    ∃ assignment,
      Assignment.parse "arr(2)='IT''S =(1)'" = .ok assignment ∧
      Assignment.parse "&arr(2)='IT''S =(1)'" = .ok assignment ∧
      (Context.load {} [assignment] []).calculateSource .character "&Arr(2)" =
        .ok (.character "IT'S =(1)", Context.load {} [assignment] []) := by
  have writes := Writes.text "IT'S =(1)"
  have quoted : quotation (doubleQuotes "IT'S =(1)".toList) = "'IT''S =(1)'" := by decide
  have target : subscripted "arr" (some 2) = "arr(2)" := by decide
  have reference : subscripted "Arr" (some 2) = "Arr(2)" := by decide
  have same : upper "Arr" = upper "arr" := by simp [upper, String.ext_iff]
  have nonneg : ∀ word ∈ some (2 : Int32), 0 ≤ word.toInt := by
    rintro word ⟨⟩
    decide
  have fits : "IT'S =(1)".length ≤ Value.maxLength := by decide
  have valid : isName "arr".toList := by decide
  have loaded := calculateSource_load valid same nonneg writes fits {}
  rwa [quoted, target, reference] at loaded

end ConditionalAssembly
