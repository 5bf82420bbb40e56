import TelemetryQuery.Command.Arguments
import TelemetryQuery.Having.AggregationText
import TelemetryQuery.Json.Reader
import TelemetryQuery.Session.Render
import TelemetryQuery.Settings.Load
/- The command: one expression, or a dialogue of lines. -/
namespace TelemetryQuery.Command

/-- A piece of output, to be ended by a line end. -/
inductive Output where
  | out (text : String)
  | err (text : String)
deriving DecidableEq, Repr, Inhabited

/-- What is known of files. A file that cannot be read has a reason for it. -/
structure Files (m : Type → Type) where
  exist : String → m Bool
  read : String → m (Except String String)

/-- A message, followed by what caused it. -/
structure Report where
  message : String
  causes : List String := []
deriving DecidableEq, Repr, Inhabited

/-- A report over several lines. -/
def Report.text (report : Report) : String :=
  "Error: " ++ report.message ++
    if report.causes.isEmpty then ""
    else "\n\nCaused by:" ++ String.join (report.causes.map ("\n    " ++ ·))

/-- A report on one line. -/
def Report.line (report : Report) : String :=
  "Error: " ++ Text.joinWith ": " (report.message :: report.causes)

def Report.ofSettings (failure : Settings.Failure) : Report :=
  { message := failure.message }

/-- The report about a failed run. -/
def Report.ofSession (failure : Session.Failure) : Report :=
  match failure.messages? with
  | some (message :: causes) => ⟨message, causes⟩
  | _ => { message := "failed to parse expression" }

def catalogOfText? (text : String) : Option Field.Catalog :=
  ((Json.parse? text).bind (Json.all? Field.Key.ofJson?)).map .ofKeys

/-- The kind of aggregation that a name asks for; no name leaves it open. -/
def kindOf {α : Type} (what name : String) (openKind : α) (ofName? : String → Option α) :
    Except Report α :=
  if name.isEmpty then .ok openKind
  else
    match ofName? name with
    | some kind => .ok kind
    | none => .error { message := "unknown " ++ what ++ " aggregation `" ++ name ++ "`" }

/-- The aggregation of a metric that is named by the arguments. -/
def metricOf (arguments : Arguments) : Except Report (Option Having.MetricAggregation) :=
  match arguments.metric with
  | none => .ok none
  | some metric => do
    let time ← kindOf "time" arguments.time .unspecified Having.TimeAggregation.ofName?
    let space ← kindOf "space" arguments.space .unspecified Having.SpaceAggregation.ofName?
    return some { metric, time, space }

section

variable {m : Type → Type} [Monad m]

/-- The settings of a file and of the environment, checked. -/
def loadSettings (files : Files m) (path : Option String) (environment : List (String × String)) :
    m (Except Settings.Failure Settings) := do
  let file ← match path with
    | none => pure none
    | some path => do
      if ← files.exist path then
        let text ← files.read path
        pure (some ⟨path, some (text.toOption.getD "")⟩)
      else pure (some ⟨path, none⟩)
  match Settings.gather file environment with
  | .error failure => return .error failure
  | .ok settings =>
    let catalogExists ← match settings.catalog with
      | some path => files.exist path
      | none => pure true
    return (settings.check catalogExists).map fun _ => settings

/-- The known fields of the file at a path. -/
def loadCatalog (files : Files m) (path : Option String) :
    m (Except Report Field.Catalog) := do
  match path with
  | none => return .ok []
  | some path =>
    match ← files.read path with
    | .error reason => return .error ⟨"Failed to read catalog: " ++ path, [reason]⟩
    | .ok text =>
      return (catalogOfText? text).elim
        (.error { message := "Failed to parse catalog: " ++ path }) .ok

/-- The session that the arguments ask for. -/
def openSession (files : Files m) (environment : List (String × String)) (arguments : Arguments) :
    m (Except Report Session) := do
  match ← loadSettings files arguments.config environment with
  | .error failure => return .error (.ofSettings failure)
  | .ok settings =>
    match ← loadCatalog files (arguments.catalog.or settings.catalog) with
    | .error report => return .error report
    | .ok catalog =>
      return (metricOf arguments).map fun metric =>
        { settings := settings.compiler
          catalog
          aggregations := arguments.aggregations.map .ofText
          metric
          json := arguments.json }

end

def greeting : String :=
  "filterql REPL\nType 'exit' or 'quit' to exit, '\\h' for help\n"

def help : String :=
  "filterql REPL Help:
  exit, quit    - Exit the REPL
  \\h            - Show this help message
  \\mode <m>     - Switch mode: where, tree, contradictions, aggregate, having
  \\keys         - List the field key catalogue
  <expression>  - Compile an expression in the current mode

Examples:
  service.name = 'redis' AND http.status_code >= 500
  \\mode aggregate
  countIf(http.status_code >= 500) / count()
  \\mode having
  total > 100"

def replyTo (session : Session) (mode : Mode) (expression : String) : Output :=
  match session.answer mode expression with
  | .ok text => .out text
  | .error failure => .err (Report.ofSession failure).line

def switch (mode : Mode) (name : String) : List Output × Mode :=
  match Mode.ofNameInAnyCase? name with
  | some mode => ([], mode)
  | none =>
    ([.err ("Unknown mode `" ++ name ++
      "`; expected where, tree, contradictions, aggregate or having")], mode)

/-- Answers a line of a dialogue. Gives the mode for the next line, unless the dialogue ends. -/
def reply (session : Session) (mode : Mode) (line : String) : List Output × Option Mode :=
  let line := Text.trim line
  if line.isEmpty then ([], some mode)
  else if Text.lower line = "exit" || Text.lower line = "quit" then ([.out "Goodbye!"], none)
  else if line = "\\h" then ([.out help], some mode)
  else if line = "\\keys" then
    (session.keys.map fun key => .out ("  " ++ key.display), some mode)
  else
    match Text.dropLeading? "\\mode".toList line.toList with
    | some name =>
      let (output, mode) := switch mode (Text.trim (String.ofList name))
      (output, some mode)
    | none => ([replyTo session mode line], some mode)

/-- What is shown when the lines of a dialogue end. -/
def farewell : Output :=
  .out "CTRL-D"

/-- A whole dialogue after its greeting. -/
def dialogue (session : Session) (mode : Mode) : List String → List Output
  | [] => [farewell]
  | line :: rest =>
    match reply session mode line with
    | (output, some mode) => output ++ dialogue session mode rest
    | (output, none) => output

/-- The lines of a text; a line end at the end starts no further line. -/
def linesOf (text : String) : List String :=
  let lines := text.toList.splitOn '\n'
  ((if lines.getLast? = some [] then lines.dropLast else lines)).map String.ofList

/-- The result of the command: its output, and whether it failed. -/
structure Outcome where
  output : List Output
  failed : Bool
deriving DecidableEq, Repr, Inhabited

/-- Runs the command on all of its input. -/
def run {m : Type → Type} [Monad m] (files : Files m) (environment : List (String × String))
    (arguments : Arguments) (input : String) : m Outcome := do
  match ← openSession files environment arguments with
  | .error report => return ⟨[.err report.text], true⟩
  | .ok session =>
    match arguments.exec with
    | some expression =>
      match session.answer arguments.mode expression with
      | .ok text => return ⟨[.out text], false⟩
      | .error failure => return ⟨[.err (Report.ofSession failure).text], true⟩
    | none =>
      return ⟨.out greeting :: dialogue session arguments.mode (linesOf input), false⟩

end TelemetryQuery.Command
