import SqlLayout.Text.Basic

/-! The indent width, and the range it is held to. -/

namespace SqlLayout

/-- The largest indent width. -/
def maxIndentWidth : Nat :=
  -- Wider margins leave no room for text.
  40

/-- An indent width within its range. -/
structure IndentWidth where
  /-- The number of columns. -/
  columns : Nat
  /-- There is at least one column. -/
  positive : 1 ≤ columns := by decide
  /-- There are not too many columns. -/
  bounded : columns ≤ maxIndentWidth := by decide

/-- Why an indent width cannot be used. -/
inductive WidthError where
  /-- The width is not within its range. -/
  | outOfRange (columns : Nat)
  deriving DecidableEq

/-- The words that say why an indent width cannot be used. -/
def WidthError.message : WidthError → Text
  | outOfRange columns =>
    "Invalid indent width ".toList ++ Nat.toDigits 10 columns ++
      ": expected a value between 1 and ".toList ++ Nat.toDigits 10 maxIndentWidth

/-- An indent width of a number of columns, if that is within the range. -/
def IndentWidth.ofColumns (columns : Nat) : Except WidthError IndentWidth :=
  -- Both ends of the range can be used.
  if range : 1 ≤ columns ∧ columns ≤ maxIndentWidth then
    .ok { columns, positive := range.1, bounded := range.2 }
  else .error (.outOfRange columns)

/-- The indent width that is used when none is asked for. -/
def IndentWidth.default : IndentWidth :=
  -- Ten columns hold the longest of the common keywords.
  { columns := 10 }

end SqlLayout
