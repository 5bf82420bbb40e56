import TelemetryQuery.Json.Basic
import TelemetryQuery.Number.Format
import TelemetryQuery.Text.Basic
/- JSON documents written as text, on one line or indented. -/
namespace TelemetryQuery.Json

/-- A character inside a string: quotes, backslashes and control characters are escaped. -/
def escapeChar (c : Char) : List Char :=
  match c with
  | '"' => ['\\', '"']
  | '\\' => ['\\', '\\']
  | '\x08' => ['\\', 'b']
  | '\x0c' => ['\\', 'f']
  | '\n' => ['\\', 'n']
  | '\r' => ['\\', 'r']
  | '\t' => ['\\', 't']
  | c =>
    if c.toNat < 32 then
      ['\\', 'u', '0', '0', Nat.digitChar (c.toNat / 16), Nat.digitChar (c.toNat % 16)]
    else [c]

def quoted (text : String) : String :=
  String.ofList ('"' :: text.toList.flatMap escapeChar ++ ['"'])

/-- The text of a document without parts. -/
def scalarText : Json → String
  | null => "null"
  | bool value => if value then "true" else "false"
  | int value => toString value
  | float value => value.jsonText?.getD "null"
  | str value => quoted value
  | arr _ => "[]"
  | obj _ => "\x7b\x7d"

mutual

/-- A document on one line, without spaces. -/
def compact : Json → String
  | arr items => "[" ++ Text.joinWith "," (compactItems items) ++ "]"
  | obj members => "\x7b" ++ Text.joinWith "," (compactMembers members) ++ "\x7d"
  | scalar => scalarText scalar

def compactItems : List Json → List String
  | [] => []
  | item :: rest => compact item :: compactItems rest

def compactMembers : List (String × Json) → List String
  | [] => []
  | (name, value) :: rest => (quoted name ++ ":" ++ compact value) :: compactMembers rest

end

/-- A line end and two spaces for each level. -/
def newline (level : Nat) : String :=
  String.ofList ('\n' :: List.replicate (2 * level) ' ')

/-- Items on lines of their own between two marks. -/
def block (level : Nat) (opening closing : String) (items : List String) : String :=
  opening ++ newline (level + 1) ++ Text.joinWith ("," ++ newline (level + 1)) items ++
    newline level ++ closing

mutual

/-- A document over several lines, at a level of indentation. -/
def indented (level : Nat) : Json → String
  | arr (item :: rest) => block level "[" "]" (indentedItems (level + 1) (item :: rest))
  | obj (first :: rest) =>
    block level "\x7b" "\x7d" (indentedMembers (level + 1) (first :: rest))
  | scalar => scalarText scalar

def indentedItems (level : Nat) : List Json → List String
  | [] => []
  | item :: rest => indented level item :: indentedItems level rest

def indentedMembers (level : Nat) : List (String × Json) → List String
  | [] => []
  | (name, value) :: rest =>
    (quoted name ++ ": " ++ indented level value) :: indentedMembers level rest

end

/-- A document over several lines, with two spaces for each level. -/
def pretty (document : Json) : String :=
  indented 0 document

end TelemetryQuery.Json
