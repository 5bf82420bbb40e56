import TelemetryQuery.Number.Decimal
/- The fewest decimal digits that read back as a given number. -/
namespace TelemetryQuery.Number

/-- A positive decimal `digits * 10 ^ exponent`. -/
structure Decimal where
  digits : Nat
  exponent : Int
deriving DecidableEq, Repr, Inhabited

/-- Whether a decimal reads as the number of the given size. -/
def Decimal.readsAs (d : Decimal) (units : Nat) : Bool :=
  ofDecimal false d.digits d.exponent = finite false units

/-- Where a value goes that lies halfway between two decimals. -/
inductive Tie where
  | up
  | toEven
deriving DecidableEq, Repr

/-- Whether a value goes down on a grid before it goes up: where it is nearer to the decimal below,
or halfway and the tie says so. -/
def Tie.below (tie : Tie) (exact grid : Nat) : Bool :=
  let twice := 2 * (exact % grid)
  twice < grid || (twice = grid && tie = toEven && exact / grid % 2 = 0)

/-- Writes the decimal with the fewest digits, trying the two neighbours of the exact value on
each grid. `exact` is the value in units of `10 ^ -1074`, and `dropped` counts the digits of it
that the grid leaves out; with none dropped the value is written as it is. -/
def search (tie : Tie) (units exact : Nat) : Nat → Decimal
  | 0 => ⟨exact, -1074⟩
  | dropped + 1 =>
    let grid := 10 ^ (dropped + 1)
    let below : Decimal := ⟨exact / grid, dropped + 1 - 1074⟩
    let above : Decimal := ⟨exact / grid + 1, dropped + 1 - 1074⟩
    let (first, second) := if tie.below exact grid then (below, above) else (above, below)
    if first.readsAs units then first
    else if second.readsAs units then second
    else search tie units exact dropped

/-- The shortest decimal that reads as the number of the given positive size. -/
def shortest (tie : Tie) (units : Nat) : Decimal :=
  let exact := units * 5 ^ 1074
  search tie units exact ((Nat.toDigits 10 exact).length - 1)

end TelemetryQuery.Number
