import TelemetryQuery.Session.Basic
/- The arguments of the command. -/
namespace TelemetryQuery.Command

/-- What the arguments ask for. -/
structure Arguments where
  /-- An expression to run; without one, expressions are read line by line. -/
  exec : Option String := none
  config : Option String := none
  catalog : Option String := none
  mode : Mode := .clause
  aggregations : List String := []
  metric : Option String := none
  time : String := ""
  space : String := ""
  json : Bool := false
deriving Repr, Inhabited

/-- The options of the command. -/
inductive Choice where
  | exec
  | config
  | catalog
  | mode
  | aggregation
  | metric
  | time
  | space
  | json
deriving DecidableEq, Repr, Inhabited

namespace Choice

def all : List Choice :=
  [exec, config, catalog, mode, aggregation, metric, time, space, json]

/-- The name of an option after two dashes. -/
def long : Choice → String
  | exec => "exec"
  | config => "config"
  | catalog => "catalog"
  | mode => "mode"
  | aggregation => "aggregation"
  | metric => "metric"
  | time => "time-aggregation"
  | space => "space-aggregation"
  | json => "json"

/-- The letter of an option after one dash. -/
def short? : Choice → Option Char
  | exec => some 'e'
  | config => some 'c'
  | mode => some 'm'
  | aggregation => some 'a'
  | _ => none

def ofLong? (name : String) : Option Choice :=
  all.find? (·.long == name)

def ofShort? (letter : Char) : Option Choice :=
  all.find? (·.short? == some letter)

end Choice

namespace Arguments

/-- Takes the value of an option, if it is one that the option can have. -/
def take? (arguments : Arguments) (choice : Choice) (value : String) : Option Arguments :=
  match choice with
  | .exec => some { arguments with exec := some value }
  | .config => if value.isEmpty then none else some { arguments with config := some value }
  | .catalog => if value.isEmpty then none else some { arguments with catalog := some value }
  | .mode => (Mode.ofName? value).map fun mode => { arguments with mode }
  | .aggregation => some { arguments with aggregations := arguments.aggregations ++ [value] }
  | .metric => some { arguments with metric := some value }
  | .time => some { arguments with time := value }
  | .space => some { arguments with space := value }
  | .json => none

/-- Whether a word stands for a value, and not for another option. -/
def isValue (word : String) : Bool :=
  word = "-" || word.toList.head? != some '-'

/-- An option with the value that is joined to it, if there is one. -/
def option? (word : List Char) : Option (Choice × Option String) :=
  match word with
  | '-' :: '-' :: rest =>
    let name := rest.takeWhile (· != '=')
    (Choice.ofLong? (String.ofList name)).map fun choice =>
      (choice,
        if name.length < rest.length then some (String.ofList (rest.drop (name.length + 1)))
        else none)
  | '-' :: letter :: rest =>
    (Choice.ofShort? letter).map fun choice =>
      (choice, if rest.isEmpty then none
        else some (String.ofList (if rest.head? = some '=' then rest.tail else rest)))
  | _ => none

/-- Reads the words after those that are read already. An option may stand only once, unless it
adds an aggregation. -/
def read? (arguments : Arguments) (seen : List Choice) : List String → Option Arguments
  | [] => some arguments
  | ["--"] => some arguments
  | word :: rest => do
    let (choice, joined) ← option? word.toList
    if choice != .aggregation && seen.contains choice then none
    else
      match choice, joined with
      | .json, none => read? { arguments with json := true } (choice :: seen) rest
      | _, some value => read? (← arguments.take? choice value) (choice :: seen) rest
      | _, none =>
        match rest with
        | value :: rest =>
          if isValue value then read? (← arguments.take? choice value) (choice :: seen) rest
          else none
        | [] => none

/-- Reads the words of a command line; nothing if they are not as they should be. -/
def parse? (words : List String) : Option Arguments :=
  read? {} [] words

end Arguments

end TelemetryQuery.Command
