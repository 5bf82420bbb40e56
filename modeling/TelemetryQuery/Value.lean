import TelemetryQuery.Number.Format
import TelemetryQuery.Text.Basic
import TelemetryQuery.Text.Quoted
/- The values that conditions compare fields with. -/
namespace TelemetryQuery

/-- A value of a condition, of a variable or of a bound argument. -/
inductive Value where
  | null
  | bool (value : Bool)
  | number (value : Number)
  | text (value : String)
  | list (items : List Value)
deriving Repr, Inhabited

namespace Value

def text? : Value → Option String
  | text value => some value
  | _ => none

def number? : Value → Option Number
  | number value => some value
  | _ => none

def items? : Value → Option (List Value)
  | list items => some items
  | _ => none

def isText (value : Value) : Bool :=
  value.text?.isSome

def isNumber (value : Value) : Bool :=
  value.number?.isSome

def boolText (value : Bool) : String :=
  if value then "true" else "false"

mutual

/-- A value as it is shown in messages: texts as they are, lists with spaces. -/
def display : Value → String
  | null => "NULL"
  | bool value => boolText value
  | number value => value.display
  | text value => value
  | list items => "[" ++ Text.joinWith " " (displays items) ++ "]"

def displays : List Value → List String
  | [] => []
  | item :: rest => display item :: displays rest

end

mutual

/-- A value as a literal of a filter: texts quoted, lists with commas. -/
def literal : Value → String
  | null => "NULL"
  | bool value => boolText value
  | number value => value.display
  | text value => Text.quote value
  | list items => "[" ++ Text.joinWith ", " (literals items) ++ "]"

def literals : List Value → List String
  | [] => []
  | item :: rest => literal item :: literals rest

end

end Value

end TelemetryQuery
