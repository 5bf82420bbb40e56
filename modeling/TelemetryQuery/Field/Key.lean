import TelemetryQuery.Text.Basic
/- Telemetry fields: a name, where it lives and what it holds. -/
namespace TelemetryQuery.Field

/-- The kind of telemetry that a field belongs to. -/
inductive Signal where
  | traces
  | logs
  | metrics
  | unspecified
deriving DecidableEq, Repr, Inhabited

namespace Signal

def text : Signal → String
  | traces => "traces"
  | logs => "logs"
  | metrics => "metrics"
  | unspecified => ""

/-- The signal of a name in any case; an unknown name is given back in lower case. -/
def ofName (name : String) : Except String Signal :=
  match Text.lower name with
  | "traces" => .ok traces
  | "trace" => .ok traces
  | "logs" => .ok logs
  | "log" => .ok logs
  | "metrics" => .ok metrics
  | "metric" => .ok metrics
  | "" => .ok unspecified
  | other => .error other

/-- The message about a name that is no signal. -/
def unknownMessage (name : String) : String :=
  "unknown signal: " ++ name

end Signal

/-- The part of a record that a field lives in. -/
inductive Context where
  | resource
  | scope
  | attributes
  | span
  | log
  | metric
  | trace
  | event
  | body
  | unspecified
deriving DecidableEq, Repr, Inhabited

namespace Context

def text : Context → String
  | resource => "resource"
  | scope => "scope"
  | attributes => "attribute"
  | span => "span"
  | log => "log"
  | metric => "metric"
  | trace => "trace"
  | event => "event"
  | body => "body"
  | unspecified => ""

/-- The context of a name in any case; attributes have several names. -/
def ofName? (name : String) : Option Context :=
  match Text.lower name with
  | "resource" => some resource
  | "scope" => some scope
  | "attribute" => some attributes
  | "attributes" => some attributes
  | "tag" => some attributes
  | "point" => some attributes
  | "span" => some span
  | "log" => some log
  | "metric" => some metric
  | "trace" => some trace
  | "event" => some event
  | "body" => some body
  | _ => none

def isSpecified (context : Context) : Bool :=
  context != unspecified

/-- The position of a context in listings of fields. -/
def rank : Context → Nat
  | resource => 0
  | scope => 1
  | attributes => 2
  | span => 3
  | log => 4
  | metric => 5
  | trace => 6
  | event => 7
  | body => 8
  | unspecified => 9

end Context

/-- What a field holds. -/
inductive DataType where
  | string
  | bool
  | number
  | unspecified
deriving DecidableEq, Repr, Inhabited

namespace DataType

def text : DataType → String
  | string => "string"
  | bool => "bool"
  | number => "number"
  | unspecified => ""

/-- The names of number types, whatever their width. -/
def numberNames : List String :=
  ["number", "num", "int", "int8", "int16", "int32", "int64", "uint", "uint8", "uint16",
    "uint32", "uint64", "float", "float32", "float64", "double"]

/-- The type of a name in any case. -/
def ofName? (name : String) : Option DataType :=
  let name := Text.lower name
  if name = "string" || name = "str" then some string
  else if name = "bool" || name = "boolean" then some bool
  else if name ∈ numberNames then some number
  else none

def isSpecified (type : DataType) : Bool :=
  type != unspecified

end DataType

/-- The stored type of a value inside a JSON body. -/
inductive BodyType where
  | string
  | int64
  | float64
  | bool
  | arrayString
  | arrayInt64
  | arrayFloat64
  | arrayBool
deriving DecidableEq, Repr, Inhabited

namespace BodyType

def all : List BodyType :=
  [string, int64, float64, bool, arrayString, arrayInt64, arrayFloat64, arrayBool]

def text : BodyType → String
  | string => "String"
  | int64 => "Int64"
  | float64 => "Float64"
  | bool => "Bool"
  | arrayString => "Array(String)"
  | arrayInt64 => "Array(Int64)"
  | arrayFloat64 => "Array(Float64)"
  | arrayBool => "Array(Bool)"

def isArray : BodyType → Bool
  | arrayString | arrayInt64 | arrayFloat64 | arrayBool => true
  | _ => false

end BodyType

/-- An index over the column of a field. -/
structure Index where
  kind : String
  column : String
  expression : String
deriving DecidableEq, Repr, Inhabited

/-- A telemetry field. -/
structure Key where
  name : String
  signal : Signal := .unspecified
  context : Context := .unspecified
  type : DataType := .unspecified
  materialized : Bool := false
  indexes : List Index := []
  bodyType : Option BodyType := none
deriving DecidableEq, Repr, Inhabited

namespace Key

/-- Whether two keys name one field: name, context and type agree. -/
def sameField (a b : Key) : Bool :=
  a.name == b.name && a.context == b.context && a.type == b.type

/-- A key as it is shown in messages and listings. -/
def display (key : Key) : String :=
  "name=" ++ key.name ++
    (if key.context.isSpecified then ",context=" ++ key.context.text else "") ++
    (if key.type.isSpecified then ",datatype=" ++ key.type.text else "") ++
    (if key.materialized then ",materialized=true" else "") ++
    key.bodyType.elim "" fun type => ",jsondatatype=" ++ type.text

end Key

end TelemetryQuery.Field
