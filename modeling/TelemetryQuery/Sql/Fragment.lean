import TelemetryQuery.Text.Basic
import TelemetryQuery.Value
/- Pieces of SQL with values bound to their placeholders. -/
namespace TelemetryQuery.Sql

/-- A piece of SQL: text, or a placeholder with its value. -/
inductive Piece where
  | text (words : String)
  | bound (value : Value)
deriving Repr, Inhabited

/-- The text of a piece; a placeholder is a question mark. -/
def Piece.sql : Piece → String
  | .text words => words
  | .bound _ => "?"

def Piece.argument? : Piece → Option Value
  | .text _ => none
  | .bound value => some value

/-- SQL in which every placeholder carries its value. -/
abbrev Fragment :=
  List Piece

namespace Fragment

def sql (fragment : Fragment) : String :=
  String.join (fragment.map Piece.sql)

/-- The values bound in a fragment, in the order of their placeholders. -/
def arguments (fragment : Fragment) : List Value :=
  fragment.filterMap Piece.argument?

def ofText (text : String) : Fragment :=
  [.text text]

/-- The fragments in order, with a separator between neighbours. -/
def joinWith (separator : String) : List Fragment → Fragment
  | [] => []
  | [fragment] => fragment
  | fragment :: rest => fragment ++ .text separator :: joinWith separator rest

/-- Joins conditions by a connective: none are nothing, one stays as it is, and more stand in
brackets. -/
def connect (connective : String) : List Fragment → Fragment
  | [] => []
  | [fragment] => fragment
  | fragments =>
    .text "(" :: joinWith (" " ++ connective ++ " ") fragments ++ [.text ")"]

end Fragment

/-- A named query that stands before another. -/
structure CommonTable where
  name : String
  sql : String
  arguments : List Value
deriving Repr, Inhabited

/-- Puts named queries before a statement. Their placeholders come first, and so do their values. -/
def withTables (tables : List CommonTable) (sql : String) (arguments : List Value) :
    String × List Value :=
  if tables.isEmpty then (sql, arguments)
  else
    let clauses := tables.map fun table => table.name ++ " AS (" ++ table.sql ++ ")"
    ("WITH " ++ Text.joinWith ", " clauses ++ " " ++ sql,
      tables.flatMap CommonTable.arguments ++ arguments)

end TelemetryQuery.Sql
