import TelemetryQuery.Field.Json
import TelemetryQuery.Settings.Basic
/- Settings in JSON documents. -/
namespace TelemetryQuery

open TelemetryQuery.Json (record? optional?)

/-- Decodes the settings of the compiler; missing ones have their defaults. -/
def CompilerSettings.ofJson? (json : Json) : Option CompilerSettings := do
  let defaults : CompilerSettings := {}
  let members ← record? ["full_text_column", "skip_resource_filter", "skip_full_text_filter",
    "skip_function_calls", "ignore_not_found_keys", "rate_interval_seconds",
    "suggestion_threshold", "signal"] json
  return {
    fullTextColumn := ← optional? members "full_text_column" defaults.fullTextColumn Json.text?
    skipResource := ← optional? members "skip_resource_filter" false Json.bool?
    skipFullText := ← optional? members "skip_full_text_filter" false Json.bool?
    skipCalls := ← optional? members "skip_function_calls" false Json.bool?
    ignoreUnknown := ← optional? members "ignore_not_found_keys" false Json.bool?
    interval := ← optional? members "rate_interval_seconds" defaults.interval Json.nat?
    threshold := ← optional? members "suggestion_threshold" defaults.threshold Json.number?
    signal := ← optional? members "signal" defaults.signal Json.text? }

/-- A text, or none for null. -/
def Json.nullableText? : Json → Option (Option String)
  | .null => some none
  | .str value => some (some value)
  | _ => none

namespace Settings

/-- Decodes the file with the known fields. -/
def catalogOfJson? (json : Json) : Option (Option String) := do
  let members ← record? ["path"] json
  optional? members "path" none Json.nullableText?

def ofJson? (json : Json) : Option Settings := do
  let members ← record? ["compiler", "catalog"] json
  return {
    compiler := ← optional? members "compiler" {} CompilerSettings.ofJson?
    catalog := ← optional? members "catalog" none catalogOfJson? }

end Settings

end TelemetryQuery
