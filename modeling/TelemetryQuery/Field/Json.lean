import TelemetryQuery.Field.Key
import TelemetryQuery.Json.Basic
/- Fields in JSON documents. -/
namespace TelemetryQuery

namespace Json

/-- The members of a record, given as an object or as an array of its fields in order. A known
member may stand only once, and an array may not be longer than the record. -/
def record? (fields : List String) : Json → Option (List (String × Json))
  | obj members =>
    let known := members.filter fun m => m.1 ∈ fields
    if (known.map (·.1)).Nodup then some known else none
  | arr items => if items.length ≤ fields.length then some (fields.zip items) else none
  | _ => none

def required? {α : Type} (members : List (String × Json)) (name : String)
    (decode : Json → Option α) : Option α :=
  (members.lookup name).bind decode

/-- A member that has a default if it is missing. -/
def optional? {α : Type} (members : List (String × Json)) (name : String) (default : α)
    (decode : Json → Option α) : Option α :=
  (members.lookup name).elim (some default) decode

/-- The name of a choice, given as a text or as the one member of an object that is null. -/
def choice? : Json → Option String
  | str name => some name
  | obj [(name, null)] => some name
  | _ => none

def all? {α : Type} (decode : Json → Option α) : Json → Option (List α)
  | arr items => items.mapM decode
  | _ => none

end Json

namespace Field

open TelemetryQuery.Json (choice? record? required? optional? all?)

def Signal.ofJson? (json : Json) : Option Signal :=
  (choice? json).bind fun name =>
    [Signal.traces, .logs, .metrics, .unspecified].find? (·.text == name)

def Context.ofJson? (json : Json) : Option Context :=
  (choice? json).bind fun name =>
    if name ∈ ["tag", "attributes", "point"] then some .attributes
    else
      [Context.resource, .scope, .attributes, .span, .log, .metric, .trace, .event, .body,
        .unspecified].find? (·.text == name)

def DataType.ofJson? (json : Json) : Option DataType :=
  (choice? json).bind fun name =>
    if name = "str" then some .string
    else if name = "boolean" then some .bool
    else if name ∈ ["int", "int64", "float", "float64", "double"] then some .number
    else [DataType.string, .bool, .number, .unspecified].find? (·.text == name)

def BodyType.ofJson? (json : Json) : Option BodyType :=
  (choice? json).bind fun name => BodyType.all.find? (·.text == name)

def Index.ofJson? (json : Json) : Option Index := do
  let members ← record? ["type", "columnExpression", "indexExpression"] json
  let kind ← required? members "type" Json.text?
  let column ← required? members "columnExpression" Json.text?
  let expression ← optional? members "indexExpression" "" Json.text?
  return { kind, column, expression }

/-- Decodes a field. Only its name is required; null stands only for a missing body type. -/
def Key.ofJson? (json : Json) : Option Key := do
  let members ← record? ["name", "signal", "fieldContext", "fieldDataType", "materialized",
    "indexes", "jsonDataType"] json
  let name ← required? members "name" Json.text?
  let signal ← optional? members "signal" .unspecified Signal.ofJson?
  let context ← optional? members "fieldContext" .unspecified Context.ofJson?
  let type ← optional? members "fieldDataType" .unspecified DataType.ofJson?
  let materialized ← optional? members "materialized" false Json.bool?
  let indexes ← optional? members "indexes" [] (all? Index.ofJson?)
  let bodyType ← optional? members "jsonDataType" none fun
    | .null => some none
    | json => (BodyType.ofJson? json).map some
  return { name, signal, context, type, materialized, indexes, bodyType }

def Index.toJson (index : Index) : Json :=
  .obj [("type", .str index.kind), ("columnExpression", .str index.column),
    ("indexExpression", .str index.expression)]

/-- Encodes a field; indexes and body type are left out if there are none. -/
def Key.toJson (key : Key) : Json :=
  .obj ([("name", .str key.name), ("signal", .str key.signal.text),
    ("fieldContext", .str key.context.text), ("fieldDataType", .str key.type.text),
    ("materialized", .bool key.materialized)] ++
    (if key.indexes.isEmpty then [] else [("indexes", .arr (key.indexes.map Index.toJson))]) ++
    key.bodyType.elim [] fun type => [("jsonDataType", .str type.text)])

end Field

end TelemetryQuery
