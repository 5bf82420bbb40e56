import TelemetryQuery.Filter.Token
import TelemetryQuery.Text.Blank
import TelemetryQuery.Text.Numeral
import TelemetryQuery.Text.Numeric
import TelemetryQuery.Text.Quoted
/- Filter text cut into tokens, blanks, comments and stray characters. -/
namespace TelemetryQuery.Filter

/-- How many characters a comment takes after its opening; one without an end takes all. -/
def commentLength : List Char → Nat
  | '*' :: '/' :: _ => 2
  | _ :: text => 1 + commentLength text
  | [] => 0

/-- The length of a number at the start of a text, zero if there is none. -/
def numberLength (text : List Char) : Nat :=
  let sign := if text.head? = some '-' then 1 else 0
  let whole := Text.digitsLength (text.drop sign)
  let fraction := Text.fractionLength (text.drop (sign + whole))
  if whole + fraction = 0 then 0
  else sign + whole + fraction + Text.exponentLength (text.drop (sign + whole + fraction))

/-- A character that may start a key or a part of it after a dot. -/
def startsKey (c : Char) : Bool :=
  Text.isAlphabetic c || c == '_' || c == '$' || c == '@'

/-- A character that may continue a part of a key. -/
def continuesKey (c : Char) : Bool :=
  Text.isAlphanumeric c || c == '_' || c == '$' || c == '@' || c == ':' || c == '/' || c == '-' ||
    c == '*'

/-- How much of a text continues a key: further characters, dots before parts, and array marks. -/
def keyTailLength : List Char → Nat
  | '.' :: c :: text => if startsKey c || c.isDigit then 2 + keyTailLength text else 0
  | '[' :: ']' :: text => 2 + keyTailLength text
  | '[' :: '*' :: ']' :: text => 3 + keyTailLength text
  | c :: text => if continuesKey c then 1 + keyTailLength text else 0
  | [] => 0

/-- The length of a key at the start of a text, zero if there is none. -/
def keyLength : List Char → Nat
  | [] => 0
  | c :: text => if startsKey c then 1 + keyTailLength text else 0

/-- A character that ends free text. -/
def endsFreeText (c : Char) : Bool :=
  Text.isBlank c || ['(', ')', '[', ']', ',', '\'', '"', '=', '!', '<', '>'].contains c

def freeTextLength (text : List Char) : Nat :=
  (text.takeWhile (!endsFreeText ·)).length

/-- What a run of characters is: a token of some kind, a gap that separates tokens, or a character
that starts no token. -/
inductive Role where
  | token (kind : Kind)
  | gap
  | stray
deriving DecidableEq, Repr, Inhabited

/-- The token of a text that starts with neither a mark nor a quote: the longest of number, key
and free text. The number wins over a key of its length, and both over free text. -/
def wordAt (text : List Char) : Role × Nat :=
  let number := numberLength text
  let key := keyLength text
  let free := freeTextLength text
  if key ≤ number && 0 < number && free ≤ number then (.token .number, number)
  else if number < key && free ≤ key then
    (.token ((Kind.ofKeyword? (String.ofList (text.take key))).getD .key), key)
  else if 0 < free then (.token .freeText, free)
  else (.stray, 1)

/-- The role and the length of what a text starts with. -/
def runAt : List Char → Role × Nat
  | [] => (.gap, 0)
  | c :: text =>
    let next := text.head?
    if Text.isBlank c then (.gap, 1)
    else match c with
      | '(' => (.token .lparen, 1)
      | ')' => (.token .rparen, 1)
      | '[' => (.token .lbrack, 1)
      | ']' => (.token .rbrack, 1)
      | ',' => (.token .comma, 1)
      | '=' => (.token .equals, if next = some '=' then 2 else 1)
      | '<' =>
        if next = some '=' then (.token .le, 2)
        else if next = some '>' then (.token .neq, 2)
        else (.token .lt, 1)
      | '>' => if next = some '=' then (.token .ge, 2) else (.token .gt, 1)
      | '!' => if next = some '=' then (.token .notEquals, 2) else (.stray, 1)
      | '/' =>
        if next = some '*' then (.gap, 2 + commentLength (text.drop 1)) else wordAt (c :: text)
      | '\'' => (Text.quotedLength? c text).elim (.stray, 1) fun n => (.token .quotedText, 1 + n)
      | '"' => (Text.quotedLength? c text).elim (.stray, 1) fun n => (.token .quotedText, 1 + n)
      | _ => wordAt (c :: text)

/-- A run of characters with its role and its place. -/
structure Run where
  role : Role
  chars : List Char
  place : Text.Place
  start : Nat
deriving DecidableEq, Repr, Inhabited

namespace Run

def stop (run : Run) : Nat :=
  run.start + run.chars.length

def token? (run : Run) : Option Token :=
  match run.role with
  | .token kind => some ⟨kind, String.ofList run.chars, run.place, run.start, run.stop⟩
  | _ => none

def error? (run : Run) : Option SyntaxError :=
  match run.role, run.chars with
  | .stray, c :: _ => some ⟨run.place, some (String.singleton c), .unrecognised c, []⟩
  | _, _ => none

end Run

/-- The runs of a text, one after the other; together they are the text. -/
def runsFrom (place : Text.Place) (start : Nat) : List Char → List Run
  | [] => []
  | c :: text =>
    let (role, length) := runAt (c :: text)
    let chars := c :: text.take (length - 1)
    ⟨role, chars, place, start⟩ ::
      runsFrom (place.after chars) (start + chars.length) (text.drop (length - 1))
termination_by text => text.length
decreasing_by grind

/-- What a text holds: its tokens, the errors of its stray characters, and its end. -/
structure Lexed where
  tokens : List Token
  errors : List SyntaxError
  ending : Token
deriving DecidableEq, Repr, Inhabited

def lex (text : String) : Lexed :=
  let chars := text.toList
  let runs := runsFrom .start 0 chars
  { tokens := runs.filterMap Run.token?
    errors := runs.filterMap Run.error?
    ending := ⟨.eof, "<EOF>", Text.Place.start.after chars, chars.length, chars.length⟩ }

end TelemetryQuery.Filter
