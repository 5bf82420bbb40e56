import TelemetryQuery.Text.Basic
import TelemetryQuery.Text.Place
/- Errors of syntax: where they are, what was found there and what should have been. -/
namespace TelemetryQuery

/-- The rules of the filter grammar that an error names, from the whole query inwards. -/
inductive Rule where
  | query
  | disjunction
  | conjunction
  | term
  | primary
  | comparison
  | inClause
  | valueList
  | call
  | parameter
  | value
deriving DecidableEq, Repr, Inhabited

def Rule.name : Rule → String
  | query => "query"
  | disjunction => "orExpression"
  | conjunction => "andExpression"
  | term => "unaryExpression"
  | primary => "primary"
  | comparison => "comparison"
  | inClause => "inClause"
  | valueList => "valueList"
  | call => "functionCall"
  | parameter => "functionParam"
  | value => "value"

/-- What is wrong at a place. -/
inductive Fault where
  /-- A character that starts no token. -/
  | unrecognised (c : Char)
  /-- A token where only others may stand, given by their names. -/
  | expecting (names : List String) (found : String)
  /-- A token after the end of the expression. -/
  | trailing (closing : Bool) (found : String)
deriving DecidableEq, Repr, Inhabited

/-- An error of syntax, with the rules that were being read, outermost first. -/
structure SyntaxError where
  place : Text.Place
  offending : Option String
  fault : Fault
  rules : List Rule
deriving DecidableEq, Repr, Inhabited

/-- The names of what could have stood at the place. -/
def Fault.expected : Fault → List String
  | unrecognised _ => []
  | expecting names _ => names
  | trailing _ _ => ["EOF"]

/-- The message about a token where others were expected. -/
def expectingMessage (names : List String) (found : String) : String :=
  match names with
  | [name] => "mismatched input " ++ found ++ " expecting " ++ name
  | _ => "expecting one of \x7b" ++ Text.joinWith ", " names ++ "\x7d but got " ++ found

def Fault.message : Fault → String
  | unrecognised c => "token recognition error at: '" ++ String.singleton c ++ "'"
  | expecting names found => expectingMessage names found
  | trailing closing found =>
    (if closing then "extraneous" else "mismatched") ++ " input " ++ found ++ " expecting <EOF>"

/-- The message of an error, with its place. -/
def SyntaxError.message (error : SyntaxError) : String :=
  "line " ++ toString error.place.line ++ ":" ++ toString error.place.column ++ " " ++
    error.fault.message

/-- The one-line summary of the errors in a filter. -/
def SyntaxError.summary (errors : List SyntaxError) : String :=
  "Found " ++ toString errors.length ++ " syntax errors while parsing the search expression."

/-- Names in their order as texts, each once. -/
def sortNames (names : List String) : List String :=
  Text.distinct (names.mergeSort (· ≤ ·))

end TelemetryQuery
