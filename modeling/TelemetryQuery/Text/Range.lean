/- Sets of characters given by ranges of code points. -/
namespace TelemetryQuery.Text

/-- Whether the code point of a character lies in one of the inclusive ranges. -/
def inRanges (table : List (Nat × Nat)) (c : Char) : Bool :=
  table.any fun range => range.1 ≤ c.toNat && c.toNat ≤ range.2

end TelemetryQuery.Text
