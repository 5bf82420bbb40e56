/- The parts of a number in a text: digits, a fraction and an exponent. -/
namespace TelemetryQuery.Text

/-- How many digits a text starts with. -/
def digitsLength (text : List Char) : Nat :=
  (text.takeWhile Char.isDigit).length

/-- The length of a point with digits after it. -/
def fractionLength : List Char → Nat
  | '.' :: text => if digitsLength text = 0 then 0 else 1 + digitsLength text
  | _ => 0

/-- The length of an exponent: its mark, a sign if any, and digits. -/
def exponentLength : List Char → Nat
  | [] => 0
  | mark :: text =>
    let sign := if text.head? = some '+' || text.head? = some '-' then 1 else 0
    let digits := digitsLength (text.drop sign)
    if (mark = 'e' || mark = 'E') && digits != 0 then 1 + sign + digits else 0

end TelemetryQuery.Text
