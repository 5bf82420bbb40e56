/- Text as a list of characters: joining, searching and replacing. -/
namespace TelemetryQuery.Text

/-- The parts in order, with the separator between neighbours. -/
def joinWith (separator : String) : List String → String
  | [] => ""
  | [part] => part
  | part :: rest => part ++ separator ++ joinWith separator rest

/-- ASCII letters in lower case; all other characters stay. -/
def lower (text : String) : String :=
  String.ofList (text.toList.map Char.toLower)

/-- ASCII letters in upper case; all other characters stay. -/
def upper (text : String) : String :=
  String.ofList (text.toList.map Char.toUpper)

/-- Whether two texts differ at most in the case of ASCII letters. -/
def sameIgnoringCase (a b : String) : Bool :=
  lower a == lower b

/-- What follows a leading part, if the text starts with it. -/
def dropLeading? : List Char → List Char → Option (List Char)
  | [], text => some text
  | _ :: _, [] => none
  | c :: leading, d :: text => if c = d then dropLeading? leading text else none

/-- Whether a part occurs somewhere in a text. -/
def occursIn (part : List Char) : List Char → Bool
  | [] => part.isEmpty
  | c :: text => part.isPrefixOf (c :: text) || occursIn part text

/-- Replaces each occurrence of a non-empty part, leftmost first and without overlap. -/
def replaceAll (part replacement : List Char) : List Char → List Char
  | [] => []
  | c :: text =>
    if part.isPrefixOf (c :: text) then
      replacement ++ replaceAll part replacement (text.drop (part.length - 1))
    else c :: replaceAll part replacement text
termination_by text => text.length
decreasing_by all_goals grind

/-- The text before and after the first character with a property. -/
def cutAt? (cut : Char → Bool) : List Char → Option (List Char × List Char)
  | [] => none
  | c :: text =>
    if cut c then some ([], text) else (cutAt? cut text).map fun (a, b) => (c :: a, b)

/-- The text before and after the last character with a property. -/
def cutAtLast? (cut : Char → Bool) : List Char → Option (List Char × List Char)
  | [] => none
  | c :: text =>
    match cutAtLast? cut text with
    | some (a, b) => some (c :: a, b)
    | none => if cut c then some ([], text) else none

/-- Keeps the first of equal items. -/
def distinct {α : Type} [BEq α] : List α → List α
  | [] => []
  | a :: rest => a :: (distinct rest).filter (· != a)

end TelemetryQuery.Text
