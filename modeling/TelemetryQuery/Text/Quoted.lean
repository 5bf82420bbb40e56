/- Quoted text: a backslash protects itself and the single quote. -/
namespace TelemetryQuery.Text

/-- Protects each backslash and single quote by a backslash. -/
def escape (text : List Char) : List Char :=
  text.flatMap fun c => if c = '\\' || c = '\'' then ['\\', c] else [c]

/-- A text as a single-quoted literal. -/
def quote (text : String) : String :=
  String.ofList ('\'' :: escape text.toList ++ ['\''])

/-- Halves each pair of backslashes. -/
def halveBackslashes : List Char → List Char
  | '\\' :: '\\' :: text => '\\' :: halveBackslashes text
  | c :: text => c :: halveBackslashes text
  | [] => []

/-- Frees each single quote of the backslash before it. -/
def freeQuotes : List Char → List Char
  | '\\' :: '\'' :: text => '\'' :: freeQuotes text
  | c :: text => c :: freeQuotes text
  | [] => []

/-- The text between two equal quotes that surround it, or all of it if there are none. -/
def stripQuotes (text : List Char) : List Char :=
  match text with
  | [] => []
  | q :: rest =>
    if (q = '\'' || q = '"') && rest.getLast? == some q then rest.dropLast else text

/-- The content of a quoted text, with its escapes undone; text without quotes is only unescaped. -/
def unquote (text : String) : String :=
  String.ofList (freeQuotes (halveBackslashes (stripQuotes text.toList)))

/-- How many characters a quoted text takes after its opening quote, if there is a closing one. A
backslash protects the character after it. -/
def quotedLength? (quote : Char) : List Char → Option Nat
  | [] => none
  | '\\' :: _ :: text => (quotedLength? quote text).map (2 + ·)
  | c :: text => if c = quote then some 1 else (quotedLength? quote text).map (1 + ·)

end TelemetryQuery.Text
