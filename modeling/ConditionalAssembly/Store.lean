import ConditionalAssembly.Attribute
import Std.Data.TreeMap

/-!
# The store of symbols

A store holds the variables and the ordinary symbols an expression may refer
to.  A variable is either one value or an array of elements by index; setting
it the other way replaces what it was.  An ordinary symbol has a value and the
attributes its definition gives it.
-/

namespace ConditionalAssembly

/-- The definition of an ordinary symbol. -/
structure OrdinarySymbol where
  value : Int32
  type : Char := 'U'
  length : Int32 := 1
  scale : Int32 := 0
  integer : Int32 := 0
  deriving DecidableEq

/-- The attribute a definition gives a symbol, if it gives one. -/
def OrdinarySymbol.attributeValue? (symbol : OrdinarySymbol) : Attribute → Option Value
  | .type => some (.character symbol.type.toString)
  | .length => some (.arithmetic symbol.length)
  | .scale => some (.arithmetic symbol.scale)
  | .integer => some (.arithmetic symbol.integer)
  | .defined => some (.arithmetic 1)
  | .count | .number | .opcode => none

theorem OrdinarySymbol.domain_of_attributeValue? {symbol : OrdinarySymbol} {kind : Attribute}
    {value : Value} (given : symbol.attributeValue? kind = some value) :
    value.domain = kind.domain := by
  cases kind <;> cases given <;> rfl

/-- What a variable holds. -/
inductive VariableValue where
  | scalar (value : Value)
  | array (elements : Std.TreeMap Int32 Value)

namespace VariableValue

/-- The value of a variable under a subscript. -/
def value? : VariableValue → List Int32 → Option Value
  | .scalar value, [] => some value
  | .array elements, [index] => elements[index]?
  | _, _ => none

/-- The greatest index of an array, and zero for a variable without a dimension. -/
def count : VariableValue → Int32
  | .scalar _ => 0
  | .array elements => elements.maxKey?.getD 0

/-- The elements of a variable, none for one without a dimension. -/
def elements : VariableValue → Std.TreeMap Int32 Value
  | .scalar _ => ∅
  | .array elements => elements

end VariableValue

/-- The variables and the ordinary symbols by name. -/
structure Store where
  variableTable : Std.TreeMap String VariableValue := ∅
  symbolTable : Std.TreeMap String OrdinarySymbol := ∅

namespace Store

/-- The store that holds nothing. -/
def empty : Store :=
  {}

/-! ## Changing the store -/

/-- Gives a variable without a dimension its value. -/
def setVariable (store : Store) (name : String) (value : Value) : Store :=
  { store with variableTable := store.variableTable.insert name (.scalar value) }

/-- Gives one element of an array its value, making the variable an array. -/
def setElement (store : Store) (name : String) (index : Int32) (value : Value) : Store :=
  let elements := (store.variableTable[name]?.map VariableValue.elements).getD ∅
  { store with
    variableTable := store.variableTable.insert name (.array (elements.insert index value)) }

/-- Defines an ordinary symbol. -/
def defineSymbol (store : Store) (name : String) (symbol : OrdinarySymbol) : Store :=
  { store with symbolTable := store.symbolTable.insert name symbol }

/-! ## Asking the store -/

/-- The value of a variable under a subscript. -/
def value? (store : Store) (name : String) (subscript : List Int32) : Option Value :=
  store.variableTable[name]?.bind fun held => held.value? subscript

/-- The number of elements of a variable. -/
def count? (store : Store) (name : String) : Option Int32 :=
  store.variableTable[name]?.map VariableValue.count

/-- The value of an ordinary symbol. -/
def symbol? (store : Store) (name : String) : Option Int32 :=
  store.symbolTable[name]?.map OrdinarySymbol.value

/-- The attribute the definition of an ordinary symbol gives it. -/
def symbolAttribute? (store : Store) (kind : Attribute) (name : String) : Option Value :=
  store.symbolTable[name]?.bind fun symbol => symbol.attributeValue? kind

/-- The attribute of an ordinary symbol, defined or not. -/
def symbolAttribute (store : Store) (kind : Attribute) (name : String) : Value :=
  (store.symbolAttribute? kind name).getD kind.undefinedValue

/-- An ordinary symbol of the name is defined. -/
def defines (store : Store) (name : String) : Bool :=
  store.symbolTable.contains name

/-! ## What setting changes -/

theorem value?_setVariable_self (store : Store) (name : String) (value : Value)
    (subscript : List Int32) :
    (store.setVariable name value).value? name subscript =
      if subscript = [] then some value else none := by
  cases subscript <;> simp [value?, setVariable, VariableValue.value?]

theorem value?_setVariable_of_ne (store : Store) {name other : String} (different : name ≠ other)
    (value : Value) (subscript : List Int32) :
    (store.setVariable name value).value? other subscript = store.value? other subscript := by
  simp [value?, setVariable, Std.TreeMap.getElem?_insert, different]

/-- An element just set has the value, and the other elements of the variable
have theirs. -/
theorem value?_setElement_self (store : Store) (name : String) (index other : Int32)
    (value : Value) :
    (store.setElement name index value).value? name [other] =
      if index = other then some value else store.value? name [other] := by
  unfold value? setElement
  rcases held : store.variableTable[name]? with _ | ⟨scalar | elements⟩ <;>
    simp [VariableValue.value?, VariableValue.elements, Std.TreeMap.getElem?_insert]

theorem value?_setElement_of_ne (store : Store) {name other : String} (different : name ≠ other)
    (index : Int32) (value : Value) (subscript : List Int32) :
    (store.setElement name index value).value? other subscript =
      store.value? other subscript := by
  simp [value?, setElement, Std.TreeMap.getElem?_insert, different]

/-- A symbol just defined has the value of its definition, and the others have theirs. -/
theorem symbol?_defineSymbol (store : Store) (name other : String) (symbol : OrdinarySymbol) :
    (store.defineSymbol name symbol).symbol? other =
      if name = other then some symbol.value else store.symbol? other := by
  unfold symbol? defineSymbol
  by_cases same : name = other <;> simp [Std.TreeMap.getElem?_insert, same]

end Store

end ConditionalAssembly
