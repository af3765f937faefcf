import ConditionalAssembly.Word

/-!
# Ranges of the source text

Positions count lines and columns from zero, columns in bytes of the UTF-8
encoding.  They are printed counting from one.  A range runs from its first
position up to, and not including, its last.
-/

namespace ConditionalAssembly

/-- A place in the source text. -/
structure Position where
  line : Nat
  column : Nat
  deriving DecidableEq

namespace Position

/-- Positions are ordered by line, and within a line by column. -/
instance : Ord Position where
  compare left right := (compare left.line right.line).then (compare left.column right.column)

/-- The earlier of two positions. -/
def earlier (left right : Position) : Position :=
  if (compare left right).isLE then left else right

/-- The later of two positions. -/
def later (left right : Position) : Position :=
  if (compare left right).isLE then right else left

/-- A position as it is printed. -/
def render (position : Position) : String :=
  Decimal.ofNat (position.line + 1) ++ ":" ++ Decimal.ofNat (position.column + 1)

end Position

/-- The part of the source text a term stands on. -/
structure Range where
  start : Position
  stop : Position
  deriving DecidableEq

namespace Range

/-- Ranges are ordered by where they start, and then by where they stop. -/
instance : Ord Range where
  compare left right := (compare left.start right.start).then (compare left.stop right.stop)

/-- The range of some columns of the first line. -/
def columns (start stop : Nat) : Range :=
  ⟨⟨0, start⟩, ⟨0, stop⟩⟩

/-- The column directly behind a range. -/
def pastEnd (range : Range) : Range :=
  ⟨range.stop, ⟨range.stop.line, range.stop.column + 1⟩⟩

/-- The least range that covers two ranges. -/
def union (left right : Range) : Range :=
  ⟨left.start.earlier right.start, left.stop.later right.stop⟩

/-- A range as it is printed. -/
def render (range : Range) : String :=
  range.start.render ++ "-" ++ range.stop.render

/-- On the first line the union runs from the lesser start to the greater stop. -/
theorem union_columns (a b c d : Nat) :
    (columns a b).union (columns c d) = columns (min a c) (max b d) := by
  simp only [columns, union, Position.earlier, Position.later, compare, compareOfLessAndEq,
    Range.mk.injEq]
  constructor
  · by_cases less : a < c
    · simp [less, Nat.min_eq_left (Nat.le_of_lt less)]
    · by_cases same : a = c
      · simp [same]
      · simp [less, same, Nat.min_eq_right (Nat.le_of_not_lt less)]
  · by_cases less : b < d
    · simp [less, Nat.max_eq_right (Nat.le_of_lt less)]
    · by_cases same : b = d
      · simp [same]
      · simp [less, same, Nat.max_eq_left (Nat.le_of_not_lt less)]

end Range

end ConditionalAssembly
