import TelemetryQuery.Command.Run
/- The command line. -/
namespace TelemetryQuery.Command

/-- The variables of the environment that are settings. -/
def settingVariables : List String :=
  ["FILTERQL_COMPILER__FULL_TEXT_COLUMN", "FILTERQL_COMPILER__SKIP_RESOURCE_FILTER",
    "FILTERQL_COMPILER__SKIP_FULL_TEXT_FILTER", "FILTERQL_COMPILER__SKIP_FUNCTION_CALLS",
    "FILTERQL_COMPILER__IGNORE_NOT_FOUND_KEYS", "FILTERQL_COMPILER__RATE_INTERVAL_SECONDS",
    "FILTERQL_COMPILER__SUGGESTION_THRESHOLD", "FILTERQL_COMPILER__SIGNAL",
    "FILTERQL_CATALOG__PATH"]

def readReason : IO.Error → String
  | .noFileOrDirectory .. => "No such file or directory (os error 2)"
  | error => toString error

def readFile (path : String) : IO (Except String String) := do
  try
    return .ok (← IO.FS.readFile path)
  catch error =>
    return .error (readReason error)

def fileSystem : Files IO where
  exist path := do return (← readFile path).toBool
  read := readFile

def put (output : Output) : IO Unit :=
  match output with
  | .out text => IO.println text
  | .err text => IO.eprintln text

/-- Answers lines as they come in. -/
partial def converse (session : Session) (mode : Mode) : IO Unit := do
  let line ← (← IO.getStdin).getLine
  if line.isEmpty then put farewell
  else
    let (output, next) := reply session mode line
    output.forM put
    match next with
    | some mode => converse session mode
    | none => return

end TelemetryQuery.Command

open TelemetryQuery.Command in
def main (words : List String) : IO UInt32 := do
  match Arguments.parse? words with
  | none =>
    IO.eprintln "error: unexpected arguments"
    return 2
  | some arguments =>
    let environment ← settingVariables.filterMapM fun name => do
      return (← IO.getEnv name).map (name, ·)
    match arguments.exec with
    | some _ =>
      let outcome ← run fileSystem environment arguments ""
      outcome.output.forM put
      return if outcome.failed then 1 else 0
    | none =>
      match ← openSession fileSystem environment arguments with
      | .error report =>
        put (.err report.text)
        return 1
      | .ok session =>
        put (.out greeting)
        converse session arguments.mode
        return 0
