import TelemetryQuery.Text.Alphabetic
import TelemetryQuery.Text.Basic
import TelemetryQuery.Text.Blank
import TelemetryQuery.Text.Numeric
/- The tokens of SQL expressions. -/
namespace TelemetryQuery.Sql

/-- Text inside quotes. A quote is doubled, unless it is doubled already or stands after a
backslash. `escaped` tells whether a backslash stands before the text. -/
def escapeQuotes (quote : Char) (escaped : Bool) : List Char → List Char
  | [] => []
  | c :: text =>
    if c = quote then
      if escaped then c :: escapeQuotes quote true text
      else
        match text with
        | d :: more =>
          if d = quote then c :: d :: escapeQuotes quote false more
          else c :: c :: escapeQuotes quote false (d :: more)
        | [] => [c, c]
    else c :: escapeQuotes quote (c = '\\') text

def quoteText (quote : Char) (text : String) : String :=
  String.ofList (quote :: escapeQuotes quote false text.toList ++ [quote])

/-- A name, with the quotes that it is written in, if any. -/
structure Ident where
  value : String
  quote : Option Char := none
deriving DecidableEq, Repr, Inhabited

def Ident.text (ident : Ident) : String :=
  ident.quote.elim ident.value fun quote => quoteText quote ident.value

/-- A name made of parts, as it is written. -/
def nameText (parts : List Ident) : String :=
  Text.joinWith "." (parts.map Ident.text)

inductive Token where
  | word (ident : Ident)
  | number (digits : String)
  /-- A text, without its quotes. -/
  | text (value : String)
  /-- A literal that is shown as it is written. -/
  | written (words : String)
  | symbol (mark : String)
deriving DecidableEq, Repr, Inhabited

/-- The keyword that a token may be, in capitals; a quoted word is none. -/
def Token.keyword? : Token → Option String
  | .word ⟨value, none⟩ => some (Text.upper value)
  | _ => none

def startsWord (c : Char) : Bool :=
  c.isAlpha || c = '_'

def continuesWord (c : Char) : Bool :=
  startsWord c || c.isDigit

/-- What is left after a comment that runs to the end of its line. -/
def afterLine : List Char → List Char
  | [] => []
  | c :: text => if c = '\n' then text else afterLine text

/-- What is left after comments that were opened `depth` times. -/
def afterComment? (depth : Nat) : List Char → Option (List Char)
  | [] => none
  | '/' :: '*' :: text => afterComment? (depth + 1) text
  | '*' :: '/' :: text => if depth ≤ 1 then some text else afterComment? (depth - 1) text
  | _ :: text => afterComment? depth text

/-- The character that a backslash and a letter stand for. -/
def escapedChar : Char → Char
  | '0' => '\x00'
  | 'a' => '\x07'
  | 'b' => '\x08'
  | 'f' => '\x0c'
  | 'n' => '\n'
  | 'r' => '\r'
  | 't' => '\t'
  | 'Z' => '\x1a'
  | c => c

/-- The value of a text after its opening quote, and what is left after the closing one. -/
def quotedText? : List Char → Option (List Char × List Char)
  | [] => none
  | '\'' :: '\'' :: text => (quotedText? text).map fun (value, rest) => ('\'' :: value, rest)
  | '\'' :: text => some ([], text)
  | '\\' :: c :: text =>
    (quotedText? text).map fun (value, rest) => (escapedChar c :: value, rest)
  | '\\' :: [] => none
  | c :: text => (quotedText? text).map fun (value, rest) => (c :: value, rest)

/-- The value of a quoted name after its opening quote, and what is left after the closing one. -/
def quotedName? (quote : Char) : List Char → Option (List Char × List Char)
  | [] => none
  | c :: text =>
    if c = quote then
      match text with
      | d :: more =>
        if d = quote then (quotedName? quote more).map fun (value, rest) => (d :: value, rest)
        else some ([], d :: more)
      | [] => some ([], [])
    else (quotedName? quote text).map fun (value, rest) => (c :: value, rest)

def isHexDigit (c : Char) : Bool :=
  c.isDigit || ('a' ≤ c && c ≤ 'f') || ('A' ≤ c && c ≤ 'F')

/-- The digits at the start of a text, with single underscores between them. -/
def digits (isDigit : Char → Bool) : List Char → List Char
  | '_' :: c :: text => if isHexDigit c then '_' :: digits isDigit (c :: text) else []
  | c :: text => if isDigit c then c :: digits isDigit text else []
  | [] => []

/-- The exponent at the start of a text, or nothing. -/
def exponentPart : List Char → List Char
  | e :: text =>
    if e = 'e' || e = 'E' then
      let sign := match text with
        | c :: _ => if c = '+' || c = '-' then [c] else []
        | [] => []
      let power := (text.drop sign.length).takeWhile Char.isDigit
      if power.isEmpty then [] else e :: sign ++ power
    else []
  | [] => []

/-- The number that a text starts with; a lone dot is none. -/
def numberPart (text : List Char) : List Char :=
  let whole := digits Char.isDigit text
  let rest := text.drop whole.length
  let fraction := if rest.head? = some '.' then '.' :: digits Char.isDigit rest.tail else []
  let mantissa := whole ++ fraction
  if mantissa = ['.'] then []
  else
    let scaled := mantissa ++ exponentPart (text.drop mantissa.length)
    scaled ++ if (text.drop scaled.length).head? = some 'L' then ['L'] else []

/-- Symbols of more than one character, longer ones before their beginnings. -/
def longSymbols : List String :=
  ["->>", "->", "<=>", "<=", "<>", ">=", "=>", "==", "!=", "||", "::", "&&", "<<", ">>"]

/-- The symbol that a non-empty text starts with. -/
def symbolPart (text : List Char) : List Char :=
  ((longSymbols.map String.toList).find? (·.isPrefixOf text)).getD (text.take 1)

/-- A number that starts with `0x`, or one in decimal notation. -/
def numberToken (text : List Char) : Token × List Char :=
  match text with
  | '0' :: 'x' :: rest =>
    let value := digits isHexDigit rest
    (.written (String.ofList (['X', '\''] ++ value ++ ['\''])), rest.drop value.length)
  | _ =>
    let number := numberPart text
    if number.isEmpty then (.symbol ".", text.tail)
    else (.number (String.ofList number), text.drop number.length)

/-- A text with a mark before its opening quote, which is shown as it is written. -/
def markedText? (mark : String) (text : List Char) : Option (Token × List Char) :=
  (quotedText? text).map fun (value, rest) =>
    (.written (mark ++ "'" ++ String.ofList value ++ "'"), rest)

/-- The name of a placeholder after its dollar sign. -/
def placeholder? (text : List Char) : Option (Token × List Char) :=
  let name := text.takeWhile fun c => Text.isAlphabetic c || Text.isNumeric c || c = '_'
  let rest := text.drop name.length
  if rest.head? = some '$' then none else some (.written (String.ofList ('$' :: name)), rest)

/-- The first token of a text that does not start with white space or a comment. A dot before an
underscore has to follow a word. -/
def firstToken? (afterWord : Bool) (text : List Char) : Option (Token × List Char) :=
  match text with
  | [] => none
  | '\'' :: rest => (quotedText? rest).map fun (value, rest) => (.text (String.ofList value), rest)
  | 'N' :: '\'' :: rest => markedText? "N" rest
  | 'n' :: '\'' :: rest => markedText? "N" rest
  | 'X' :: '\'' :: rest => markedText? "X" rest
  | 'x' :: '\'' :: rest => markedText? "X" rest
  | '.' :: '_' :: rest => if afterWord then some (.symbol ".", '_' :: rest) else none
  | '$' :: rest => placeholder? rest
  | '?' :: rest =>
    let number := rest.takeWhile Text.isNumeric
    some (.written (String.ofList ('?' :: number)), rest.drop number.length)
  | c :: rest =>
    if c = '"' || c = '`' then
      (quotedName? c rest).map fun (value, rest) => (.word ⟨String.ofList value, some c⟩, rest)
    else if startsWord c then
      some (.word ⟨String.ofList (c :: rest.takeWhile continuesWord), none⟩,
        rest.dropWhile continuesWord)
    else if c.isDigit || c = '.' then some (numberToken text)
    else
      let symbol := symbolPart text
      some (.symbol (String.ofList symbol), text.drop symbol.length)

/-- White space, a comment or a token at the start of a text, and what is left after it. -/
def step? (afterWord : Bool) (text : List Char) : Option (Option Token × List Char) :=
  match text with
  | '-' :: '-' :: rest => some (none, afterLine rest)
  | '/' :: '*' :: rest => (afterComment? 1 rest).map (none, ·)
  | c :: rest =>
    if Text.isBlank c then some (none, rest)
    else (firstToken? afterWord text).map fun (token, rest) => (some token, rest)
  | [] => none

def Token.isWord : Token → Bool
  | .word _ => true
  | _ => false

/-- The tokens of a text, if each of them is complete. -/
def tokens? (afterWord : Bool) (text : List Char) : Option (List Token) :=
  if text.isEmpty then some []
  else do
    let (token, left) ← step? afterWord text
    if left.length < text.length then
      let more ← tokens? (token.any Token.isWord) left
      return token.toList ++ more
    else none
termination_by text.length

end TelemetryQuery.Sql
