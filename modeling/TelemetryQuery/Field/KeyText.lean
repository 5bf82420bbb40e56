import TelemetryQuery.Field.Key
/- Keys as they are written in filters: a context, a name and a type. -/
namespace TelemetryQuery.Field.Key

/-- The context before the first dot, if it is one, and the text after it. -/
def splitContext (text : List Char) : Context × List Char :=
  match Text.cutAt? (· == '.') text with
  | some (head, rest) =>
    match Context.ofName? (String.ofList head) with
    | some context => (context, rest)
    | none => (.unspecified, text)
  | none => (.unspecified, text)

/-- The type after the last colon, if it is one, and the text before it. -/
def splitType (text : List Char) : DataType × List Char :=
  match Text.cutAtLast? (· == ':') text with
  | some (stem, tail) =>
    match DataType.ofName? (String.ofList tail) with
    | some type => (type, stem)
    | none => (.unspecified, text)
  | none => (.unspecified, text)

/-- The field that a key text names. What is no known context or type stays in the name. -/
def ofText (text : String) : Key :=
  let (context, rest) := splitContext text.toList
  let (type, name) := splitType rest
  { name := String.ofList name, context, type }

/-- The text of a key in a filter. -/
def toText (key : Key) : String :=
  (if key.context.isSpecified then key.context.text ++ "." else "") ++ key.name ++
    if key.type.isSpecified then ":" ++ key.type.text else ""

end TelemetryQuery.Field.Key
