import TelemetryQuery.Text.Basic
/- The columns that results are selected into, by the references that name them. -/
namespace TelemetryQuery.Having

/-- An aggregation of a query, with another name for its result if it has one. -/
structure Aggregation where
  expression : String
  name : Option String := none
deriving DecidableEq, Repr, Inhabited

/-- How the points of one series are aggregated over time. -/
inductive TimeAggregation where
  | unspecified
  | latest
  | sum
  | avg
  | min
  | max
  | count
  | countDistinct
  | rate
  | increase
deriving DecidableEq, Repr, Inhabited

namespace TimeAggregation

def text : TimeAggregation → String
  | unspecified => ""
  | latest => "latest"
  | sum => "sum"
  | avg => "avg"
  | min => "min"
  | max => "max"
  | count => "count"
  | countDistinct => "count_distinct"
  | rate => "rate"
  | increase => "increase"

def named : List TimeAggregation :=
  [latest, sum, avg, min, max, count, countDistinct, rate, increase]

def ofName? (name : String) : Option TimeAggregation :=
  named.find? fun aggregation => Text.sameIgnoringCase aggregation.text name

end TimeAggregation

/-- How series are aggregated with each other. -/
inductive SpaceAggregation where
  | unspecified
  | sum
  | avg
  | min
  | max
  | count
  | p50
  | p75
  | p90
  | p95
  | p99
deriving DecidableEq, Repr, Inhabited

namespace SpaceAggregation

def text : SpaceAggregation → String
  | unspecified => ""
  | sum => "sum"
  | avg => "avg"
  | min => "min"
  | max => "max"
  | count => "count"
  | p50 => "p50"
  | p75 => "p75"
  | p90 => "p90"
  | p95 => "p95"
  | p99 => "p99"

def named : List SpaceAggregation :=
  [sum, avg, min, max, count, p50, p75, p90, p95, p99]

def ofName? (name : String) : Option SpaceAggregation :=
  named.find? fun aggregation => Text.sameIgnoringCase aggregation.text name

end SpaceAggregation

/-- The aggregation of a metric. -/
structure MetricAggregation where
  metric : String
  time : TimeAggregation := .unspecified
  space : SpaceAggregation := .unspecified
deriving DecidableEq, Repr, Inhabited

/-- Columns by reference, in the order of the references as texts. -/
abbrev Columns :=
  List (String × String)

namespace Columns

def insert (reference column : String) : Columns → Columns
  | [] => [(reference, column)]
  | (other, old) :: rest =>
    if reference = other then (reference, column) :: rest
    else if reference < other then (reference, column) :: (other, old) :: rest
    else (other, old) :: insert reference column rest

/-- Sets the column of a reference that has none yet. -/
def insertNew (reference column : String) (columns : Columns) : Columns :=
  if (columns.lookup reference).isSome then columns else columns.insert reference column

def references (columns : Columns) : List String :=
  columns.map (·.1)

def targets (columns : Columns) : List String :=
  columns.map (·.2)

/-- The column that the result of an aggregation is selected into. -/
def resultColumn (i : Nat) : String :=
  "__result_" ++ toString i

/-- Adds the references to one aggregation: its expression unless an earlier one has it, its
other name, and its position. -/
def addAggregation (columns : Columns) (aggregation : Aggregation) (i : Nat) : Columns :=
  let columns := columns.insertNew aggregation.expression (resultColumn i)
  let columns := aggregation.name.elim columns fun name => columns.insert name (resultColumn i)
  columns.insert ("__result" ++ toString i) (resultColumn i)

/-- The columns of a query with aggregations. A single one also goes by a short name. -/
def ofAggregations (aggregations : List Aggregation) : Columns :=
  let columns := aggregations.zipIdx.foldl (fun columns (a, i) => addAggregation columns a i) []
  if aggregations.length = 1 then insert "__result" (resultColumn 0) columns else columns

/-- The column that metric aggregations are selected into. -/
def metricColumn : String :=
  "value"

/-- The ways to refer to the aggregation of a metric. -/
def metricReferences (aggregation : MetricAggregation) : List String :=
  let metric := aggregation.metric
  let time := aggregation.time.text ++ "(" ++ metric ++ ")"
  let timed := aggregation.time != .unspecified
  let spaced := aggregation.space != .unspecified
  (if timed then [time] else []) ++
  (if spaced then [aggregation.space.text ++ "(" ++ metric ++ ")"] else []) ++
  (if timed && spaced then [aggregation.space.text ++ "(" ++ time ++ ")"] else []) ++
  [metric, "__result", "__result0"]

/-- The columns of a query over a metric: all references name one. -/
def ofMetric (aggregation : MetricAggregation) : Columns :=
  (metricReferences aggregation).foldl (fun columns r => insert r metricColumn columns) []

end Columns

end TelemetryQuery.Having
