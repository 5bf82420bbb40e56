import TelemetryQuery.Number.Decimal
import TelemetryQuery.Number.Format
import TelemetryQuery.Text.Basic
/- Settings as they are written, before their meaning is known. -/
namespace TelemetryQuery.Settings

/-- A written setting, or several of them by name. -/
inductive Entry where
  | null
  | bool (value : Bool)
  | int (value : Int)
  | float (value : Number)
  | text (value : String)
  | list (items : List Entry)
  | table (members : List (String × Entry))
deriving Repr, Inhabited

/-- Sets the entry of a name, in its old place if it has one. -/
def put (name : String) (entry : Entry) : List (String × Entry) → List (String × Entry)
  | [] => [(name, entry)]
  | (other, old) :: rest =>
    if other = name then (name, entry) :: rest else (other, old) :: put name entry rest

namespace Entry

/-- The members of a table; nothing else has any. -/
def members : Entry → List (String × Entry)
  | table members => members
  | _ => []

/-- Sets the entry at a path. What stands on the way and is not a table gives way to one. -/
def set (root : Entry) (path : List String) (value : Entry) : Entry :=
  match path with
  | [] => value
  | name :: rest =>
    let old := (root.members.lookup name).getD (table [])
    table (put name (old.set rest value) root.members)

/-- The members of a record, given as a table or as a list of its fields in order. -/
def record? (fields : List String) : Entry → Option (List (String × Entry))
  | table members => some members
  | list items => some (fields.zip items)
  | _ => none

/-- A yes or a no: numbers are yes unless they are zero, and some words are one or the other. -/
def flag? : Entry → Option Bool
  | bool value => some value
  | int value => some (value != 0)
  | float value => some !value.isZero
  | text value =>
    if ["1", "true", "on", "yes"].contains (Text.lower value) then some true
    else if ["0", "false", "off", "no"].contains (Text.lower value) then some false
    else none
  | _ => none

def countLimit : Nat :=
  2 ^ 64 - 1

/-- The whole number nearest to a number, a half going away from zero; what is out of range goes
to the nearest end of it. -/
def roundToCount : Number → Nat
  | .nan => 0
  | .infinite negative => if negative then 0 else countLimit
  | .finite negative units =>
    if negative then 0
    else min countLimit ((units + Number.unitsPerOne / 2) / Number.unitsPerOne)

/-- A word for one or for zero. -/
def unitOfWord? (word : String) : Option Bool :=
  if ["true", "on", "yes"].contains (Text.lower word) then some true
  else if ["false", "off", "no"].contains (Text.lower word) then some false
  else none

/-- The natural number of a text, with a plus sign or without. -/
def natOfText? (text : String) : Option Nat :=
  let digits := match text.toList with
    | '+' :: digits => digits
    | digits => digits
  if digits.isEmpty || !digits.all Char.isDigit then none
  else some (Number.digitsValue 0 digits)

/-- A count: a whole number that is not negative and not too large. -/
def count? : Entry → Option Nat
  | bool value => some (if value then 1 else 0)
  | int value => if 0 ≤ value then some value.toNat else none
  | float value => some (roundToCount value)
  | text value =>
    match unitOfWord? value with
    | some one => some (if one then 1 else 0)
    | none => (natOfText? value).filter (· ≤ countLimit)
  | _ => none

def number? : Entry → Option Number
  | bool value => some (if value then .one else .zero)
  | int value => some (.ofInt value)
  | float value => some value
  | text value =>
    match unitOfWord? value with
    | some one => some (if one then .one else .zero)
    | none => Number.ofText? value
  | _ => none

def text? : Entry → Option String
  | bool value => some (if value then "true" else "false")
  | int value => some (toString value)
  | float value => some value.display
  | text value => some value
  | _ => none

end Entry

end TelemetryQuery.Settings
