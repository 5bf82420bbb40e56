import TelemetryQuery.Json.Reader
import TelemetryQuery.Settings.Basic
import TelemetryQuery.Settings.Toml
/- Settings gathered from a file and from the environment. -/
namespace TelemetryQuery.Settings

open TelemetryQuery.Settings.Entry (flag? count? number? text?)

/-- What the name of a variable that is a setting starts with. -/
def variableMark : List Char :=
  "filterql_".toList

/-- The parts of a path with dots between them, if each of them is a name. -/
def pathParts? (text : List Char) : Option (List String) :=
  let parts := text.splitOn '.'
  if parts.all fun part => !part.isEmpty && part.all Toml.isKeyChar then
    some (parts.map String.ofList)
  else none

/-- The path of the setting that a variable sets, whatever the case of its name. Two underscores
stand for a dot; what is not a path is a name as it is. -/
def variablePath? (name : String) : Option (List String) :=
  (Text.dropLeading? variableMark (Text.lower name).toList).map fun rest =>
    let path := Text.replaceAll ['_', '_'] ['.'] rest
    (pathParts? path).getD [String.ofList path]

/-- The whole number of a text, if it fits 64 bits with a sign. -/
def intOfText? (text : String) : Option Int :=
  let (negative, digits) := Toml.split text.toList
  if digits.isEmpty || !digits.all Char.isDigit then none
  else
    let size := Number.digitsValue 0 digits
    if negative then if size ≤ 2 ^ 63 then some (-size) else none
    else if size < 2 ^ 63 then some size
    else none

/-- The value of a variable: a yes or a no, a number, or a text. -/
def entryOfVariable (value : String) : Entry :=
  if Text.lower value = "true" then .bool true
  else if Text.lower value = "false" then .bool false
  else
    match intOfText? value with
    | some n => .int n
    | none => (Number.ofText? value).elim (.text value) .float

/-- Lets variables of the environment override written settings. -/
def overrideBy (environment : List (String × String)) (root : Entry) : Entry :=
  environment.foldl (fun root (name, value) =>
    (variablePath? name).elim root fun path => root.set path (entryOfVariable value)) root

mutual

def entryOfJson : Json → Entry
  | .null => .null
  | .bool value => .bool value
  | .int value => .int value
  | .float value => .float value
  | .str value => .text value
  | .arr items => .list (entriesOfJson items)
  | .obj members => .table (membersOfJson members)

def entriesOfJson : List Json → List Entry
  | [] => []
  | json :: rest => entryOfJson json :: entriesOfJson rest

def membersOfJson : List (String × Json) → List (String × Entry)
  | [] => []
  | (name, json) :: rest => put name (entryOfJson json) (membersOfJson rest)

end

/-- Reads a settings file; its format shows in its name. -/
def parseFile? (path text : String) : Option Entry :=
  match Text.cutAtLast? (· == '.') path.toList with
  | some (_, ending) =>
    match String.ofList ending with
    | "toml" => Toml.parse? text
    | "json" => (Json.parse? text).map entryOfJson
    | _ => none
  | none => none

/-- A setting that has a default if it is missing. -/
def settingOr {α : Type} (members : List (String × Entry)) (name : String) (default : α)
    (decode : Entry → Option α) : Option α :=
  (members.lookup name).elim (some default) decode

/-- The settings of the compiler; missing ones have their defaults. -/
def compilerOf? (entry : Entry) : Option CompilerSettings := do
  let defaults : CompilerSettings := {}
  let members ← entry.record? ["full_text_column", "skip_resource_filter",
    "skip_full_text_filter", "skip_function_calls", "ignore_not_found_keys",
    "rate_interval_seconds", "suggestion_threshold", "signal"]
  return {
    fullTextColumn := ← settingOr members "full_text_column" defaults.fullTextColumn text?
    skipResource := ← settingOr members "skip_resource_filter" false flag?
    skipFullText := ← settingOr members "skip_full_text_filter" false flag?
    skipCalls := ← settingOr members "skip_function_calls" false flag?
    ignoreUnknown := ← settingOr members "ignore_not_found_keys" false flag?
    interval := ← settingOr members "rate_interval_seconds" defaults.interval count?
    threshold := ← settingOr members "suggestion_threshold" defaults.threshold number?
    signal := ← settingOr members "signal" defaults.signal text? }

def catalogOf? (entry : Entry) : Option (Option String) := do
  let members ← entry.record? ["path"]
  settingOr members "path" none fun
    | .null => some none
    | path => path.text?.map some

def ofWritten? (entry : Entry) : Option Settings := do
  let members := entry.members
  return {
    compiler := ← settingOr members "compiler" {} compilerOf?
    catalog := ← settingOr members "catalog" none catalogOf? }

/-- A settings file: its path and its text, where it is there. -/
structure SettingsFile where
  path : String
  text : Option String
deriving DecidableEq, Repr, Inhabited

/-- The settings of a file and of the environment, before they are checked. -/
def gather (file : Option SettingsFile) (environment : List (String × String)) :
    Except Failure Settings := do
  let written ← match file with
    | none => .ok (Entry.table [])
    | some ⟨path, none⟩ => .error (.fileMissing path)
    | some ⟨path, some text⟩ => (parseFile? path text).elim (.error .unreadable) .ok
  (ofWritten? (overrideBy environment written)).elim (.error .wrongType) .ok

/-- Checks settings, given whether the file with the known fields is there. -/
def check (settings : Settings) (catalogExists : Bool) : Except Failure Unit := do
  settings.compiler.check
  match settings.catalog with
  | some path => if catalogExists then .ok () else .error (.catalogMissing path)
  | none => .ok ()

end TelemetryQuery.Settings
