import TelemetryQuery.Field.Json
import TelemetryQuery.Json.Printer
import TelemetryQuery.Session.Basic
/- Results of runs as text or as JSON documents, and messages about failures. -/
namespace TelemetryQuery

mutual

def Value.toJson : Value → Json
  | .null => .null
  | .bool flag => .bool flag
  | .number n => .float n
  | .text words => .str words
  | .list items => .arr (Value.listToJson items)

def Value.listToJson : List Value → List Json
  | [] => []
  | value :: rest => value.toJson :: Value.listToJson rest

end

def Diagnostic.toJson (diagnostic : Diagnostic) : Json :=
  let problem := diagnostic.problem
  .obj ([("severity", .str (if problem.isWarning then "warning" else "error")),
    ("kind", .str problem.kind), ("message", .str problem.message),
    ("location", diagnostic.place.elim .null fun place =>
      .arr [.int place.line, .int place.column])] ++
    problem.page?.toList.map fun page => ("doc_url", .str page))

namespace Filter

def Operand.toJson : Operand → Json
  | .scalar value => .obj [("scalar", value.toJson)]
  | .range low high => .obj [("range", .arr [low.toJson, high.toJson])]
  | .list values => .obj [("list", .arr (values.map Value.toJson))]
  | .none => .str "none"

def Condition.toJson (condition : Condition) : Json :=
  .obj [("key", condition.key.toJson), ("op", .str condition.operator.name),
    ("value", condition.operand.toJson)]

mutual

def Node.toJson : Node → Json
  | .leaf negated condition =>
    .obj [("op", .str "LEAF"), ("negated", .bool negated),
      ("conditions", .arr [condition.toJson])]
  | .join negated .and children =>
    .obj [("op", .str "AND"), ("negated", .bool negated),
      ("children", .arr (Node.listToJson children))]
  | .join negated .or children =>
    .obj [("op", .str "OR"), ("negated", .bool negated),
      ("children", .arr (Node.listToJson children))]

def Node.listToJson : List Node → List Json
  | [] => []
  | node :: rest => node.toJson :: Node.listToJson rest

end

/-- A tree; the one without conditions is a leaf that holds none. -/
def Tree.toJson (tree : Tree) : Json :=
  match tree with
  | some node => node.toJson
  | none => .obj [("op", .str "LEAF"), ("negated", .bool false)]

end Filter

namespace Session

/-- Values as they are shown after `args:`. -/
def argumentsLine (arguments : List Value) : String :=
  "\nargs: " ++ (Json.arr (arguments.map Value.toJson)).compact

def clauseText (clause : Where.Clause) : String :=
  clause.sql ++ argumentsLine clause.arguments ++
    String.join (clause.warnings.map fun warning => "\nwarning: " ++ warning.problem.message) ++
    (Diagnostic.firstPage? clause.warnings).elim "" fun page => "\nSee " ++ page

/-- A document with SQL, its values and the warnings. -/
def compiledJson (name sql : String) (arguments : List Value) (warnings : List Diagnostic) :
    Json :=
  .obj [(name, .str sql), ("args", .arr (arguments.map Value.toJson)),
    ("warnings", .arr (warnings.map Diagnostic.toJson))]

def Result.text (json : Bool) : Result → String
  | .clause compiled =>
    if json then
      (compiledJson "where_clause" compiled.sql compiled.arguments compiled.warnings).pretty
    else clauseText compiled
  | .tree found => if json then (Filter.Tree.toJson found).pretty else Filter.Tree.render found
  | .contradictions found =>
    if found.isEmpty then "no contradictions" else Text.joinWith "\n" found
  | .aggregate compiled =>
    if json then
      (compiledJson "expression" compiled.sql compiled.arguments compiled.warnings).pretty
    else compiled.sql ++ argumentsLine compiled.arguments
  | .having resolved => resolved

/-- A message with its details on lines of their own. -/
def detailed (message : String) (details : List String) (page : Option String) : String :=
  if details.isEmpty then message
  else
    message ++ "\n  " ++ Text.joinWith "\n  " details ++
      page.elim "" fun page => "\nSee " ++ page

def filterMessage (failure : Where.Failure) : String :=
  detailed failure.message (failure.diagnostics.map (·.problem.message)) (some failure.page)

/-- A message, and what caused it; SQL that cannot be read has no message. -/
def Failure.messages? : Failure → Option (List String)
  | .filter reason => some [filterMessage reason]
  | .faulty expression errors =>
    some ["Failed to parse filter expression: " ++ expression, SyntaxError.summary errors]
  | .aggregate (.filter reason) => some [filterMessage reason]
  | .aggregate reason => reason.message?.map ([·])
  | .having reason => some [detailed reason.message reason.details none]
  | .noMetric => some ["`Having` on metrics needs --metric"]

/-- Runs an expression and shows its result. -/
def answer (session : Session) (mode : Mode) (expression : String) : Except Failure String :=
  (session.run mode expression).map (Result.text session.json)

end Session

end TelemetryQuery
