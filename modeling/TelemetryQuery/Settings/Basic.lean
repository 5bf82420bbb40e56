import TelemetryQuery.Aggregate.Expression
/- The settings of the compiler, and what they have to fulfil. -/
namespace TelemetryQuery

/-- How expressions are compiled. -/
structure CompilerSettings where
  /-- The field that searches look into; without a name there are no searches. -/
  fullTextColumn : String := "body"
  skipResource : Bool := false
  skipFullText : Bool := false
  skipCalls : Bool := false
  ignoreUnknown : Bool := false
  /-- How many seconds rates are counted over. -/
  interval : Nat := Aggregate.defaultInterval
  /-- How alike a known name has to be to be suggested. -/
  threshold : Number := Where.defaultThreshold
  /-- The name of the kind of telemetry. -/
  signal : String := "logs"
deriving Repr, Inhabited

structure Settings where
  compiler : CompilerSettings := {}
  /-- The file with the known fields. -/
  catalog : Option String := none
deriving Repr, Inhabited

namespace Settings

/-- Why there are no usable settings. -/
inductive Failure where
  | fileMissing (path : String)
  | unreadable
  /-- The settings can be read, but one of them has the wrong type. -/
  | wrongType
  | zeroInterval
  | thresholdOutside (threshold : Number)
  | unknownSignal (signal : String)
  | catalogMissing (path : String)
deriving DecidableEq, Repr, Inhabited

def Failure.message : Failure → String
  | fileMissing path => "Configuration file not found: " ++ path
  | unreadable => "Failed to build configuration"
  | wrongType => "Failed to deserialize configuration"
  | zeroInterval => "compiler.rate_interval_seconds must be greater than 0"
  | thresholdOutside threshold =>
    "compiler.suggestion_threshold must be in (0, 1], got " ++ threshold.display
  | unknownSignal signal =>
    "compiler.signal must be one of logs, traces, metrics, got `" ++ signal ++ "`"
  | catalogMissing path => "Catalog file not found: " ++ path

end Settings

/-- Checks the settings of the compiler, in the order of the failures. -/
def CompilerSettings.check (settings : CompilerSettings) : Except Settings.Failure Unit :=
  if settings.interval = 0 then .error .zeroInterval
  else if !(Number.zero.lt settings.threshold && settings.threshold.le .one) then
    .error (.thresholdOutside settings.threshold)
  else if ["logs", "traces", "metrics"].contains settings.signal then .ok ()
  else .error (.unknownSignal settings.signal)

def CompilerSettings.searches (settings : CompilerSettings) : Bool :=
  !settings.fullTextColumn.isEmpty

end TelemetryQuery
