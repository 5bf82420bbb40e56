import TelemetryQuery.Number.Decimal
import TelemetryQuery.Schema.Table
import TelemetryQuery.Sql.Fragment
import TelemetryQuery.Text.Blank
/- Conditions on fields as SQL. -/
namespace TelemetryQuery.Schema

open TelemetryQuery.Field (Key DataType)
open TelemetryQuery.Sql (Fragment Piece)

/-- The column and the value of a comparison, one of them cast if their types differ. A text that
holds a number is compared in order as a number. -/
def alignTypes (type : DataType) (column : String) (operator : Operator) (value : Value) :
    String × Value :=
  match type, value with
  | .number, .text text =>
    match Number.ofText? (Text.trim text) with
    | some number =>
      if operator.isOrder then (column, .number number) else ("toString(" ++ column ++ ")", value)
    | none => ("toString(" ++ column ++ ")", value)
  | .bool, .text _ => ("toString(" ++ column ++ ")", value)
  | .string, .number _ => ("toFloat64OrNull(" ++ column ++ ")", value)
  | .string, .list items =>
    if !items.isEmpty && items.all Value.isNumber then
      ("toFloat64OrNull(" ++ column ++ ")", value)
    else (column, value)
  | .string, .bool flag => (column, .text (Value.boolText flag))
  | _, _ => (column, value)

namespace Table

/-- The test whether a field is there. -/
def existence (table : Table) (key : Key) (column : String) (negated : Bool) : String :=
  let negation := if negated then "NOT " else ""
  if key.context = .body then negation ++ "JSON_EXISTS(body, '" ++ bodyPath key.name ++ "')"
  else
    match table.mapPlace? key with
    | some place => negation ++ "mapContains(" ++ place.map ++ ", '" ++ place.key ++ "')"
    | none =>
      let isText := key.type = .string || key.type = .unspecified
      match isText, negated with
      | true, false => column ++ " <> ''"
      | true, true => column ++ " = ''"
      | false, false => column ++ " IS NOT NULL"
      | false, true => column ++ " IS NULL"

/-- A column, an operator and a bound value. -/
def compare (column operator : String) (value : Value) : Fragment :=
  [.text (column ++ " " ++ operator ++ " "), .bound value]

def compareCaseless (column operator : String) (value : Value) : Fragment :=
  [.text ("LOWER(" ++ column ++ ") " ++ operator ++ " LOWER("), .bound value, .text ")"]

/-- A column as text, cast if it holds numbers and is not cast yet. -/
def asText (key : Key) (column : String) : String :=
  if key.type = .number && !("toString(".toList.isPrefixOf column.toList) then
    "toString(" ++ column ++ ")"
  else column

/-- The test whether a value occurs in a field. -/
def containment (key : Key) (column operator : String) (value : Value) : Fragment :=
  compareCaseless (asText key column) operator (.text ("%" ++ value.display ++ "%"))

def range (column : String) (operator : Operator) (value : Value) :
    Except Refusal Fragment :=
  match value with
  | .list [low, high] =>
    .ok [.text (column ++ " " ++ operator.text ++ " "), .bound low, .text " AND ", .bound high]
  | _ => .error (.needsTwo operator)

/-- The test whether a field is one of some values; a single value stands for itself. -/
def membership (column : String) (operator : Operator) (value : Value) :
    Except Refusal Fragment :=
  let values := match value with
    | .list items => items
    | single => [single]
  if values.isEmpty then .error (.needsOne operator)
  else
    .ok (.text (column ++ " " ++ operator.text ++ " (") ::
      Fragment.joinWith ", " (values.map fun v => [.bound v]) ++ [.text ")"])

/-- The test of an operator, on a column and a value of like types. -/
def test (table : Table) (key : Key) (mapped column : String) (operator : Operator)
    (value : Value) : Except Refusal Fragment :=
  match operator with
  | .equal => .ok (compare column "=" value)
  | .notEqual => .ok (compare column "<>" value)
  | .greater => .ok (compare column ">" value)
  | .greaterEq => .ok (compare column ">=" value)
  | .less => .ok (compare column "<" value)
  | .lessEq => .ok (compare column "<=" value)
  | .like => .ok (compare column "LIKE" value)
  | .notLike => .ok (compare column "NOT LIKE" value)
  | .ilike => .ok (compareCaseless column "LIKE" value)
  | .notIlike => .ok (compareCaseless column "NOT LIKE" value)
  | .contains => .ok (containment key column "LIKE" value)
  | .notContains => .ok (containment key column "NOT LIKE" value)
  | .regexp => .ok [.text ("match(" ++ column ++ ", "), .bound value, .text ")"]
  | .notRegexp => .ok [.text ("NOT match(" ++ column ++ ", "), .bound value, .text ")"]
  | .between => range column operator value
  | .notBetween => range column operator value
  | .isIn => membership column operator value
  | .notIn => membership column operator value
  | .exist => .ok (.ofText (table.existence key mapped false))
  | .notExist => .ok (.ofText (table.existence key mapped true))
  | .unknown => .error (.unsupported operator)

/-- A condition together with the test that the field is there, if it is stored in a map: a map
without the key would read as a default value. -/
def guard (table : Table) (key : Key) (operator : Operator) (condition : Fragment) : Fragment :=
  match table.mapPlace? key with
  | some place =>
    if operator.impliesExistence then
      .text "(" :: condition ++
        [.text (" AND mapContains(" ++ place.map ++ ", '" ++ place.key ++ "') = "),
          .bound (.bool true), .text ")"]
    else condition
  | none => condition

/-- The condition that a field stands in a relation to a value. -/
def condition (table : Table) (key : Key) (operator : Operator) (value : Value) :
    Except Refusal Fragment := do
  let mapped ← table.field key
  let (column, value) := alignTypes key.type mapped operator value
  return table.guard key operator (← table.test key mapped column operator value)

end Table

end TelemetryQuery.Schema
