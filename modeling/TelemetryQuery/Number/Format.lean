import TelemetryQuery.Number.Shortest
/- Text of numbers, in plain notation and in the notation of JSON. -/
namespace TelemetryQuery.Number

/-- The significant digits of a positive size, without zeros at the end, and how many of them
stand before the decimal point. -/
def significant (tie : Tie) (units : Nat) : List Char × Int :=
  let d := shortest tie units
  let digits := Nat.toDigits 10 d.digits
  let kept := (digits.reverse.dropWhile (· == '0')).reverse
  (kept, digits.length + d.exponent)

/-- Digits with the point after the first `point` of them, filled up with zeros where there are
none. `wholeTail` is what follows a number without fraction. -/
def placePoint (wholeTail : List Char) (digits : List Char) (point : Int) : List Char :=
  if point ≤ 0 then '0' :: '.' :: (List.replicate (-point).toNat '0' ++ digits)
  else
    let whole := point.toNat
    if digits.length ≤ whole then
      digits ++ List.replicate (whole - digits.length) '0' ++ wholeTail
    else digits.take whole ++ '.' :: digits.drop whole

def sign (negative : Bool) : List Char :=
  if negative then ['-'] else []

/-- Plain notation: the shortest digits that read back, a tie going up, never with an exponent. -/
def display : Number → String
  | nan => "NaN"
  | infinite negative => if negative then "-inf" else "inf"
  | finite negative units =>
    let body :=
      if units = 0 then ['0']
      else
        let (digits, point) := significant .up units
        placePoint [] digits point
    String.ofList (sign negative ++ body)

/-- Digits with an exponent: one digit before the point, and the exponent with its sign. -/
def scientific (digits : List Char) (point : Int) : List Char :=
  let mantissa := match digits with
    | first :: second :: rest => first :: '.' :: second :: rest
    | short => short
  let exponent := point - 1
  let mark := if exponent < 0 then ['e', '-'] else ['e', '+']
  mantissa ++ mark ++ Nat.toDigits 10 exponent.natAbs

/-- The notation of JSON: the shortest digits that read back, a tie going to the even one, always
with a fraction or an exponent, plain from 1e-5 up to below 1e16. What is not finite has none. -/
def jsonText? : Number → Option String
  | finite negative units =>
    let body :=
      if units = 0 then ['0', '.', '0']
      else
        let (digits, point) := significant .toEven units
        if -5 < point ∧ point ≤ 16 then placePoint ['.', '0'] digits point
        else scientific digits point
    some (String.ofList (sign negative ++ body))
  | _ => none

end TelemetryQuery.Number
