import TelemetryQuery.Having.Columns
import TelemetryQuery.Text.Blank
/- Aggregations as they are written, with another name after `AS`. -/
namespace TelemetryQuery.Having

/-- Whether two characters spell `as` in any case; the long s counts as an s. -/
def spellsAs (a s : Char) : Bool :=
  (a = 'a' || a = 'A') && (s = 's' || s = 'S' || s = 'ſ')

/-- How many characters a separator takes that a text starts with: blanks, `as` and blanks. -/
def separatorLength? (text : List Char) : Option Nat :=
  let before := text.takeWhile Text.isBlank
  match text.dropWhile Text.isBlank with
  | a :: s :: rest =>
    let after := rest.takeWhile Text.isBlank
    if !before.isEmpty && spellsAs a s && !after.isEmpty then
      some (before.length + 2 + after.length)
    else none
  | _ => none

/-- What stands before and after the last separator. -/
def splitLast : List Char → Option (List Char × List Char)
  | [] => none
  | c :: text =>
    match separatorLength? (c :: text) with
    | some length =>
      let rest := text.drop (length - 1)
      match splitLast rest with
      | some (before, after) => some ((c :: text).take length ++ before, after)
      | none => some ([], rest)
    | none => (splitLast text).map fun (before, after) => (c :: before, after)
termination_by text => text.length
decreasing_by all_goals grind

/-- Reads an aggregation. Another name that is empty is none. -/
def Aggregation.ofText (text : String) : Aggregation :=
  match splitLast text.toList with
  | some (before, after) =>
    let name := Text.trim (String.ofList after)
    { expression := Text.trim (String.ofList before)
      name := if name.isEmpty then none else some name }
  | none => { expression := Text.trim text }

end TelemetryQuery.Having
