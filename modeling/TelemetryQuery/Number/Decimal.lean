import TelemetryQuery.Number.Basic
/- Numbers read from decimal text. -/
namespace TelemetryQuery.Number

/-- The value of a run of ASCII digits, continuing from a leading part. -/
def digitsValue (lead : Nat) (digits : List Char) : Nat :=
  digits.foldl (fun n c => 10 * n + (c.toNat - 48)) lead

/-- The number nearest to `mantissa * 10 ^ exponent`. Exponents that leave the range of the format
whatever the digits are answered without computing the power. -/
def ofDecimal (negative : Bool) (mantissa : Nat) (exponent : Int) : Number :=
  let top : Int := (Nat.toDigits 10 mantissa).length + exponent
  if mantissa = 0 then finite negative 0
  else if 310 < top then infinite negative
  else if top < -330 then finite negative 0
  else if 0 ≤ exponent then
    ofQuotient negative (mantissa * 10 ^ exponent.toNat * unitsPerOne) 1
  else ofQuotient negative (mantissa * unitsPerOne) (10 ^ (-exponent).toNat)

/-- The exponent part of a decimal text: nothing, or a mark, a sign if any, and digits. -/
def readExponent? : List Char → Option Int
  | [] => some 0
  | mark :: text =>
    if mark != 'e' && mark != 'E' then none
    else
      let (negative, digits) := match text with
        | '-' :: digits => (true, digits)
        | '+' :: digits => (false, digits)
        | digits => (false, digits)
      if digits.isEmpty || !digits.all Char.isDigit then none
      else
        let size : Int := digitsValue 0 digits
        some (if negative then -size else size)

/-- Digits with a point among or around them, and an exponent. -/
def readDigits? (negative : Bool) (text : List Char) : Option Number :=
  let whole := text.takeWhile Char.isDigit
  let rest := text.dropWhile Char.isDigit
  let (fraction, tail) := match rest with
    | '.' :: rest => (rest.takeWhile Char.isDigit, rest.dropWhile Char.isDigit)
    | rest => ([], rest)
  if whole.isEmpty && fraction.isEmpty then none
  else (readExponent? tail).map fun exponent =>
    ofDecimal negative (digitsValue (digitsValue 0 whole) fraction)
      (exponent - fraction.length)

/-- A number without its sign: a word for infinity or for no number, in any case, or digits. -/
def readUnsigned? (negative : Bool) (text : List Char) : Option Number :=
  let word := String.ofList (text.map Char.toLower)
  if word = "inf" || word = "infinity" then some (infinite negative)
  else if word = "nan" then some nan
  else readDigits? negative text

/-- Reads a whole text as a number; spaces, separators and other bases are refused. -/
def ofText? (text : String) : Option Number :=
  match text.toList with
  | '-' :: rest => readUnsigned? true rest
  | '+' :: rest => readUnsigned? false rest
  | rest => readUnsigned? false rest

end TelemetryQuery.Number
