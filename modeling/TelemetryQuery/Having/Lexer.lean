import TelemetryQuery.Having.Token
import TelemetryQuery.Text.Blank
import TelemetryQuery.Text.Numeral
import TelemetryQuery.Text.Numeric
import TelemetryQuery.Text.Quoted
/- Conditions on aggregated results cut into tokens. -/
namespace TelemetryQuery.Having

/-- The length of a number that starts with a digit or a point: a point may stand without digits
after it. -/
def numberLength (text : List Char) : Nat :=
  let whole := Text.digitsLength text
  let fraction := match text.drop whole with
    | '.' :: rest => 1 + Text.digitsLength rest
    | _ => 0
  whole + fraction + Text.exponentLength (text.drop (whole + fraction))

def startsIdentifier (c : Char) : Bool :=
  Text.isAlphabetic c || c == '_'

def continuesIdentifier (c : Char) : Bool :=
  Text.isAlphanumeric c || c == '_' || c == '.'

/-- The kind of a mark of one character. -/
def markKind? : Char → Option Kind
  | '(' => some .lparen
  | ')' => some .rparen
  | ',' => some .comma
  | '=' => some (.comparison .equal)
  | '<' => some (.comparison .less)
  | '>' => some (.comparison .greater)
  | '+' => some (.arithmetic .add)
  | '-' => some (.arithmetic .subtract)
  | '*' => some (.arithmetic .multiply)
  | '/' => some (.arithmetic .divide)
  | '%' => some (.arithmetic .remainder)
  | _ => none

/-- The kind of a mark of two characters. -/
def doubleMarkKind? : Char → Char → Option Kind
  | '=', '=' => some (.comparison .equal)
  | '!', '=' => some (.comparison .notEqual)
  | '<', '>' => some (.comparison .unequal)
  | '<', '=' => some (.comparison .lessEq)
  | '>', '=' => some (.comparison .greaterEq)
  | _, _ => none

/-- The kind and the length of the token that a text starts with, if it starts with one. -/
def tokenAt? : List Char → Option (Kind × Nat)
  | [] => none
  | c :: text =>
    match text.head?.bind (doubleMarkKind? c), markKind? c with
    | some kind, _ => some (kind, 2)
    | none, some kind => some (kind, 1)
    | none, none =>
      if c = '\'' || c = '"' then
        (Text.quotedLength? c text).map fun length => (.quotedText, 1 + length)
      else if c.isDigit || (c = '.' && text.head?.any Char.isDigit) then
        some (.number, numberLength (c :: text))
      else if startsIdentifier c then
        let word := c :: text.takeWhile continuesIdentifier
        some (.ofWord (String.ofList word), word.length)
      else none

/-- The place after a character that starts no token. A quote without a partner is looked for to
the end, and its place is counted from there. -/
def placeAfterStray (place : Text.Place) (c : Char) (text : List Char) : Text.Place :=
  if c = '\'' || c = '"' then (place.after (c :: text)).step c else place.step c

/-- What a text holds: its tokens, the errors of its stray characters, and the place of its end. -/
structure Lexed where
  tokens : List Token
  errors : List SyntaxError
  ending : Text.Place
deriving DecidableEq, Repr, Inhabited

/-- The tokens of a text that starts at a place. -/
def lexFrom (place : Text.Place) : List Char → Lexed
  | [] => ⟨[], [], place⟩
  | c :: text =>
    if Text.isBlank c then lexFrom (place.step c) text
    else
      match tokenAt? (c :: text) with
      | some (kind, length) =>
        let chars := c :: text.take (length - 1)
        let more := lexFrom (place.after chars) (text.drop (length - 1))
        { more with tokens := ⟨kind, String.ofList chars, place⟩ :: more.tokens }
      | none =>
        let more := lexFrom (placeAfterStray place c text) text
        let error := ⟨place, some (String.singleton c), .unrecognised c, []⟩
        { more with errors := error :: more.errors }
termination_by text => text.length
decreasing_by all_goals grind

def lex (text : String) : Lexed :=
  lexFrom .start text.toList

end TelemetryQuery.Having
