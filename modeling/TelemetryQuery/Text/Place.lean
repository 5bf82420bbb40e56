/- Where a character stands in a text of several lines. -/
namespace TelemetryQuery.Text

/-- A line, counted from one, and a column in it, counted from zero in characters. -/
structure Place where
  line : Nat
  column : Nat
deriving DecidableEq, Repr, Inhabited

namespace Place

/-- The place of the first character. -/
def start : Place :=
  ⟨1, 0⟩

/-- The place that follows a character. -/
def step (place : Place) (c : Char) : Place :=
  if c = '\n' then ⟨place.line + 1, 0⟩ else ⟨place.line, place.column + 1⟩

/-- The place that follows a run of characters. -/
def after (place : Place) (passed : List Char) : Place :=
  passed.foldl step place

end Place

end TelemetryQuery.Text
