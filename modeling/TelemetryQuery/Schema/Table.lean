import TelemetryQuery.Field.Catalog
import TelemetryQuery.Operator
import TelemetryQuery.Text.Quoted
/- Where fields are stored: columns of their own, maps by type, and a JSON body. -/
namespace TelemetryQuery.Schema

open TelemetryQuery.Field (Key Context DataType Catalog)

/-- Why a field or a condition has no SQL. -/
inductive Refusal where
  | noColumn (name : String)
  | unsupported (operator : Operator)
  | needsTwo (operator : Operator)
  | needsOne (operator : Operator)
deriving DecidableEq, Repr, Inhabited

def Refusal.message : Refusal → String
  | noColumn name => "column not found for key `" ++ name ++ "`"
  | unsupported operator => "unsupported operator: " ++ operator.text
  | needsTwo operator => operator.text ++ " operator requires two values"
  | needsOne operator => operator.text ++ " operator requires at least one value"

/-- A table of records, given by the names of the columns that all records have. -/
structure Table where
  intrinsic : List String
deriving DecidableEq, Repr, Inhabited

def Table.logs : Table :=
  ⟨["timestamp", "id", "trace_id", "span_id", "trace_flags", "severity_text", "severity_number",
    "body", "scope_name", "scope_version"]⟩

/-- The part of a column or map name that tells the type of its values. -/
def typeName : DataType → String
  | .number => "number"
  | .bool => "bool"
  | .string => "string"
  | .unspecified => "string"

/-- A text inside a quoted literal. -/
def escapeText (text : String) : String :=
  String.ofList (Text.escape text.toList)

/-- The path of a field inside the body, as it stands in a quoted literal. -/
def bodyPath (name : String) : String :=
  "$." ++ escapeText name

/-- A place in a map: the map's column and the key, as it stands in a quoted literal. -/
structure MapPlace where
  map : String
  key : String
deriving DecidableEq, Repr, Inhabited

namespace Table

def isIntrinsicName (table : Table) (name : String) : Bool :=
  table.intrinsic.contains name

/-- Whether a field is a column that all records have. -/
def isIntrinsic (table : Table) (key : Key) : Bool :=
  [Context.unspecified, .log, .span].contains key.context && table.isIntrinsicName key.name

/-- The field of a column that all records have. -/
def intrinsicKey? (table : Table) (name : String) : Option Key :=
  if table.isIntrinsicName name then
    let type : DataType :=
      if ["timestamp", "severity_number", "trace_flags"].contains name then .number else .string
    some { name, context := .log, type }
  else none

/-- Where a field is stored in a map, if it is. -/
def mapPlace? (table : Table) (key : Key) : Option MapPlace :=
  if key.materialized || table.isIntrinsic key then none
  else
    let place (map : String) : Option MapPlace := some ⟨map, escapeText key.name⟩
    match key.context with
    | .resource => place "resources_string"
    | .scope => place "scope_string"
    | .attributes => place ("attributes_" ++ typeName key.type)
    | .unspecified => place ("attributes_" ++ typeName key.type)
    | .log => place ("attributes_" ++ typeName key.type)
    | .span => place ("attributes_" ++ typeName key.type)
    | _ => none

/-- The expression that reads a field from the body. -/
def bodyField (key : Key) : String :=
  if key.name.isEmpty then "body" else "JSON_VALUE(body, '" ++ bodyPath key.name ++ "')"

/-- The column of a field that has one because it is used often. -/
def materializedColumn (key : Key) : String :=
  let context := if key.context = .resource then "resource" else "attribute"
  "`" ++ context ++ "_" ++ typeName key.type ++ "_" ++
    String.ofList (Text.replaceAll ['.'] ['$', '$'] key.name.toList) ++ "`"

/-- The expression that reads a field. -/
def field (table : Table) (key : Key) : Except Refusal String :=
  if table.isIntrinsic key then .ok key.name
  else if key.context = .body then .ok (bodyField key)
  else if key.materialized then .ok (materializedColumn key)
  else
    match table.mapPlace? key with
    | some place => .ok (place.map ++ "['" ++ place.key ++ "']")
    | none => .error (.noColumn key.name)

/-- The expression that selects a field under its name. A field without context is read as the
first known one of its name. -/
def column (table : Table) (catalog : Catalog) (key : Key) : Except Refusal String :=
  let resolved :=
    if key.context.isSpecified || table.isIntrinsic key then key
    else (catalog.find key.name).headD key
  (table.field resolved).map fun expression => expression ++ " AS `" ++ key.name ++ "`"

end Table

end TelemetryQuery.Schema
