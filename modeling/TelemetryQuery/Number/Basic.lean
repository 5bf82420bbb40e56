/- Binary floating-point numbers with 53 significant bits, held exactly as multiples of 2^-1074. -/
namespace TelemetryQuery

/-- A number of the double format. A finite one is its sign and its size in units of 2^-1074, so
that order and sums are those of natural numbers. -/
inductive Number where
  | nan
  | infinite (negative : Bool)
  | finite (negative : Bool) (units : Nat)
deriving DecidableEq, Repr, Inhabited

-- Powers of natural numbers are computed, also where a monoid would give its own.
attribute [instance (high + 1), default_instance (high + 1)] instPowNat

namespace Number

/-- One, in units of the least positive number. -/
def unitsPerOne : Nat :=
  2 ^ 1074

/-- The quotient as a whole number, a half going to the even neighbour. -/
def roundDiv (num den : Nat) : Nat :=
  let down := num / den
  let twice := 2 * (num % den)
  if twice < den then down
  else if den < twice then down + 1
  else down + down % 2

/-- The size nearest to a quotient among those that 53 significant bits can hold. -/
def roundUnits (num den : Nat) : Nat :=
  let spare := 2 ^ (Nat.log2 (num / den) + 1 - 53)
  roundDiv num (den * spare) * spare

/-- The number of a sign and an exact size in units; a size past the largest is infinite. -/
def ofQuotient (negative : Bool) (num den : Nat) : Number :=
  let units := roundUnits num den
  if units < 2 ^ 2098 then finite negative units else infinite negative

def zero : Number :=
  finite false 0

def one : Number :=
  finite false unitsPerOne

def ofNat (n : Nat) : Number :=
  ofQuotient false (n * unitsPerOne) 1

def ofInt (n : Int) : Number :=
  ofQuotient (n < 0) (n.natAbs * unitsPerOne) 1

def neg : Number → Number
  | nan => nan
  | infinite negative => infinite !negative
  | finite negative units => finite (!negative) units

def isNaN : Number → Bool
  | nan => true
  | _ => false

def isFinite : Number → Bool
  | finite _ _ => true
  | _ => false

def isZero : Number → Bool
  | finite _ units => units == 0
  | _ => false

/-- The signed size of a finite number, in units. -/
def signed (negative : Bool) (units : Nat) : Int :=
  if negative then -(units : Int) else units

/-- Strict order; nothing is less or greater than what is not a number. -/
def lt : Number → Number → Bool
  | nan, _ => false
  | _, nan => false
  | infinite a, infinite b => a && !b
  | infinite a, finite _ _ => a
  | finite _ _, infinite b => !b
  | finite a m, finite b n => signed a m < signed b n

/-- Equality of value: the two zeros are equal, and what is not a number equals nothing. -/
def same : Number → Number → Bool
  | nan, _ => false
  | _, nan => false
  | infinite a, infinite b => a == b
  | finite a m, finite b n => signed a m == signed b n
  | _, _ => false

def le (a b : Number) : Bool :=
  a.lt b || a.same b

/-- The sum, rounded; a zero sum is negative only if both parts are. -/
def add : Number → Number → Number
  | nan, _ => nan
  | _, nan => nan
  | infinite a, infinite b => if a == b then infinite a else nan
  | infinite a, finite _ _ => infinite a
  | finite _ _, infinite b => infinite b
  | finite a m, finite b n =>
    let total := signed a m + signed b n
    if total = 0 then finite (a && b) 0 else ofQuotient (total < 0) total.natAbs 1

def sub (a b : Number) : Number :=
  a.add b.neg

def mul : Number → Number → Number
  | nan, _ => nan
  | _, nan => nan
  | infinite a, infinite b => infinite (a != b)
  | infinite a, finite b n => if n = 0 then nan else infinite (a != b)
  | finite a m, infinite b => if m = 0 then nan else infinite (a != b)
  | finite a m, finite b n => ofQuotient (a != b) (m * n) unitsPerOne

def div : Number → Number → Number
  | nan, _ => nan
  | _, nan => nan
  | infinite _, infinite _ => nan
  | infinite a, finite b _ => infinite (a != b)
  | finite a _, infinite b => finite (a != b) 0
  | finite a m, finite b n =>
    if n = 0 then (if m = 0 then nan else infinite (a != b))
    else ofQuotient (a != b) (m * unitsPerOne) n

end Number

end TelemetryQuery
