import TelemetryQuery.Number.Basic
/- JSON documents. -/
namespace TelemetryQuery

/-- A JSON document. Whole numbers are kept apart from the others, and the members of an object
keep their order and their repetitions. -/
inductive Json where
  | null
  | bool (value : Bool)
  | int (value : Int)
  | float (value : Number)
  | str (value : String)
  | arr (items : List Json)
  | obj (members : List (String × Json))
deriving Repr, Inhabited

namespace Json

/-- The last member of a name. -/
def member? (name : String) : Json → Option Json
  | obj members => (members.reverse.find? (·.1 == name)).map (·.2)
  | _ => none

def text? : Json → Option String
  | str value => some value
  | _ => none

def bool? : Json → Option Bool
  | bool value => some value
  | _ => none

def items? : Json → Option (List Json)
  | arr items => some items
  | _ => none

def members? : Json → Option (List (String × Json))
  | obj members => some members
  | _ => none

def number? : Json → Option Number
  | int value => some (Number.ofInt value)
  | float value => some value
  | _ => none

def nat? : Json → Option Nat
  | int value => if 0 ≤ value then some value.toNat else none
  | _ => none

/-- A text, or null for none. -/
def ofText? : Option String → Json
  | some text => str text
  | none => null

def ofTexts (texts : List String) : Json :=
  arr (texts.map str)

end Json

end TelemetryQuery
