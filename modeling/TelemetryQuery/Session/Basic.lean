import TelemetryQuery.Filter.Contradiction
import TelemetryQuery.Filter.Tree
import TelemetryQuery.Having.Substitution
import TelemetryQuery.Settings.Basic
/- Sessions: settings and known fields against which expressions are run. -/
namespace TelemetryQuery

/-- What is done with an expression. -/
inductive Mode where
  /-- A filter is compiled. -/
  | clause
  /-- A filter is shown as a tree of conditions. -/
  | tree
  /-- Conditions that exclude each other are listed. -/
  | contradictions
  /-- An aggregation is compiled. -/
  | aggregate
  /-- A condition on results is resolved. -/
  | having
deriving DecidableEq, Repr, Inhabited

namespace Mode

def all : List Mode :=
  [clause, tree, contradictions, aggregate, having]

def text : Mode → String
  | clause => "where"
  | tree => "tree"
  | contradictions => "contradictions"
  | aggregate => "aggregate"
  | having => "having"

def ofName? (name : String) : Option Mode :=
  all.find? (·.text == name)

def ofNameInAnyCase? (name : String) : Option Mode :=
  all.find? fun mode => Text.sameIgnoringCase mode.text name

end Mode

/-- Settings, known fields, and the aggregations that conditions on results refer to. -/
structure Session where
  settings : CompilerSettings := {}
  catalog : Field.Catalog := []
  aggregations : List Having.Aggregation := []
  metric : Option Having.MetricAggregation := none
  /-- Results are shown as JSON documents. -/
  json : Bool := false
deriving Repr, Inhabited

namespace Session

/-- Whether a field stands before another in a listing, or beside it. -/
def listedBefore (a b : Field.Key) : Bool :=
  a.name < b.name || (a.name = b.name && a.context.rank ≤ b.context.rank)

/-- The known fields by name and context. -/
def keys (session : Session) : List Field.Key :=
  session.catalog.keys.mergeSort listedBefore

/-- The field that searches look into. -/
def fullText (session : Session) : Option Field.Key :=
  if session.settings.searches then
    let name := session.settings.fullTextColumn
    some ((Schema.Table.logs.intrinsicKey? name).getD { name, type := .string })
  else none

def whereOptions (session : Session) : Where.Options :=
  { catalog := session.catalog
    fullText := session.fullText
    skipResource := session.settings.skipResource
    skipFullText := session.settings.skipFullText
    skipCalls := session.settings.skipCalls
    ignoreUnknown := session.settings.ignoreUnknown
    threshold := session.settings.threshold }

def aggregateOptions (session : Session) : Aggregate.Options :=
  { filter := session.whereOptions
    interval := session.settings.interval
    intrinsic := Schema.Table.logs.intrinsic.filterMap Schema.Table.logs.intrinsicKey? }

inductive Result where
  | clause (clause : Where.Clause)
  | tree (tree : Filter.Tree)
  | contradictions (found : List String)
  | aggregate (compiled : Aggregate.Compiled)
  | having (text : String)
deriving Repr, Inhabited

/-- Why a run has no result. -/
inductive Failure where
  | filter (reason : Where.Failure)
  | faulty (expression : String) (errors : List SyntaxError)
  | aggregate (reason : Aggregate.Failure)
  | having (reason : Having.Refusal)
  | noMetric
deriving Repr, Inhabited

/-- The columns that conditions on results refer to. -/
def columns (session : Session) : Except Failure Having.Columns :=
  if session.settings.signal = "metrics" then
    session.metric.elim (.error .noMetric) fun metric => .ok (.ofMetric metric)
  else .ok (.ofAggregations session.aggregations)

def run (session : Session) (mode : Mode) (expression : String) : Except Failure Result :=
  match mode with
  | .clause => ((Where.compile session.whereOptions expression).map .clause).mapError .filter
  | .tree => ((Filter.extract expression).map .tree).mapError (.faulty expression)
  | .contradictions =>
    ((Filter.detectContradictions expression).map .contradictions).mapError (.faulty expression)
  | .aggregate =>
    ((Aggregate.compile session.aggregateOptions expression).map .aggregate).mapError .aggregate
  | .having => do
    let columns ← session.columns
    ((Having.resolve columns expression).map .having).mapError .having

end Session

end TelemetryQuery
