import TelemetryQuery.Json.Basic
import TelemetryQuery.Number.Decimal
/- JSON documents read from text. -/
namespace TelemetryQuery.Json

def isSpace (c : Char) : Bool :=
  c == ' ' || c == '\t' || c == '\n' || c == '\r'

def skipSpaces (text : List Char) : List Char :=
  text.dropWhile isSpace

/-- The largest significand that is kept; digits past it only count for the exponent. -/
def significandLimit : Nat :=
  2 ^ 64

/-- Takes digits into a significand while it stays below the limit. Gives the significand, the
number of digits taken and the text after them. -/
def takeDigits (significand taken : Nat) : List Char → Nat × Nat × List Char
  | [] => (significand, taken, [])
  | c :: text =>
    let next := 10 * significand + (c.toNat - 48)
    if c.isDigit && next < significandLimit then takeDigits next (taken + 1) text
    else (significand, taken, c :: text)

/-- Scales a positive number by a power of ten, rounding at each step; a result out of range is
refused. -/
def scale? (size : Number) (exponent : Int) : Nat → Option Number
  | 0 => some size
  | steps + 1 =>
    if exponent.natAbs ≤ 308 then
      let power := Number.ofNat (10 ^ exponent.natAbs)
      if exponent < 0 then some (size.div power)
      else
        let scaled := size.mul power
        if scaled.isFinite then some scaled else none
    else if size.isZero then some size
    else if 0 ≤ exponent then none
    else scale? (size.div (Number.ofNat (10 ^ 308))) (exponent + 308) steps

/-- The number of a sign, a significand and a decimal exponent. -/
def ofParts? (negative : Bool) (significand : Nat) (exponent : Int) : Option Json :=
  (scale? (Number.ofNat significand) exponent 8).map fun size =>
    float (if negative then size.neg else size)

/-- Reads the rest of a number that stands at its exponent mark. -/
def readExponent (negative : Bool) (significand : Nat) (exponent : Int) :
    List Char → Option (Json × List Char)
  | [] => none
  | _ :: text =>
    let (down, text) := match text with
      | '-' :: text => (true, text)
      | '+' :: text => (false, text)
      | text => (false, text)
    let digits := text.takeWhile Char.isDigit
    let rest := text.dropWhile Char.isDigit
    if digits.isEmpty then none
    else
      let size := Number.digitsValue 0 digits
      if 2 ^ 31 ≤ size then
        if significand != 0 && !down then none
        else some (float (.finite negative 0), rest)
      else
        (ofParts? negative significand (exponent + if down then -(size : Int) else size)).map
          (·, rest)

/-- Reads what may follow the digits of a number: an exponent or nothing. -/
def readTail (negative : Bool) (significand : Nat) (exponent : Int) (text : List Char) :
    Option (Json × List Char) :=
  match text with
  | 'e' :: _ => readExponent negative significand exponent text
  | 'E' :: _ => readExponent negative significand exponent text
  | _ => (ofParts? negative significand exponent).map (·, text)

/-- Reads the digits after a decimal point; at least one has to be there. -/
def readFraction (negative : Bool) (significand : Nat) (exponent : Int) (text : List Char) :
    Option (Json × List Char) :=
  let (significand', taken, rest) := takeDigits significand 0 text
  if taken = 0 && !(rest.head?.any Char.isDigit) then none
  else readTail negative significand' (exponent - taken) (rest.dropWhile Char.isDigit)

/-- A whole number if it fits into 64 bits, else the nearest number; zero keeps a minus sign only
as a fraction. -/
def ofWhole (negative : Bool) (significand : Nat) : Json :=
  if !negative then int significand
  else if significand = 0 || 2 ^ 63 < significand then
    float (Number.ofNat significand).neg
  else int (-significand)

/-- Reads a number without its sign. A leading zero stands alone. -/
def readUnsigned (negative : Bool) (text : List Char) : Option (Json × List Char) :=
  let (significand, taken, rest) := match text with
    | '0' :: rest => (0, 1, rest)
    | _ => takeDigits 0 0 text
  let longer := rest.takeWhile Char.isDigit
  if taken = 0 then none
  else if longer.isEmpty then
    match rest with
    | '.' :: rest => readFraction negative significand 0 rest
    | 'e' :: _ => readExponent negative significand 0 rest
    | 'E' :: _ => readExponent negative significand 0 rest
    | _ => some (ofWhole negative significand, rest)
  else if text.head? == some '0' then none
  else
    match rest.dropWhile Char.isDigit with
    | '.' :: rest => readFraction negative significand longer.length rest
    | rest => readTail negative significand longer.length rest

def readNumber : List Char → Option (Json × List Char)
  | '-' :: text => readUnsigned true text
  | text => readUnsigned false text

def hexDigit? (c : Char) : Option Nat :=
  if c.isDigit then some (c.toNat - 48)
  else if 'a' ≤ c && c ≤ 'f' then some (c.toNat - 87)
  else if 'A' ≤ c && c ≤ 'F' then some (c.toNat - 55)
  else none

/-- Four hexadecimal digits. -/
def readHex : List Char → Option (Nat × List Char)
  | a :: b :: c :: d :: text => do
    let a ← hexDigit? a
    let b ← hexDigit? b
    let c ← hexDigit? c
    let d ← hexDigit? d
    some (((a * 16 + b) * 16 + c) * 16 + d, text)
  | _ => none

/-- A character given by its code: one code, or a pair that together name one beyond the first
plane. A half of a pair alone is refused. -/
def readCode (text : List Char) : Option (Char × List Char) := do
  let (high, rest) ← readHex text
  if 0xDC00 ≤ high && high < 0xE000 then none
  else if 0xD800 ≤ high && high < 0xDC00 then
    match rest with
    | '\\' :: 'u' :: rest => do
      let (low, rest) ← readHex rest
      if 0xDC00 ≤ low && low < 0xE000 then
        some (Char.ofNat (0x10000 + (high - 0xD800) * 0x400 + (low - 0xDC00)), rest)
      else none
    | _ => none
  else some (Char.ofNat high, rest)

/-- The character that an escape letter stands for. -/
def escaped? : Char → Option Char
  | '"' => some '"'
  | '\\' => some '\\'
  | '/' => some '/'
  | 'b' => some '\x08'
  | 'f' => some '\x0c'
  | 'n' => some '\n'
  | 'r' => some '\r'
  | 't' => some '\t'
  | _ => none

/-- Reads a string up to its closing quote. The fuel bounds the number of characters read. -/
def readChars : Nat → List Char → Option (List Char × List Char)
  | _, [] => none
  | 0, _ => none
  | _ + 1, '"' :: text => some ([], text)
  | fuel + 1, '\\' :: 'u' :: text => do
    let (c, rest) ← readCode text
    let (chars, rest) ← readChars fuel rest
    some (c :: chars, rest)
  | fuel + 1, '\\' :: letter :: text => do
    let c ← escaped? letter
    let (chars, rest) ← readChars fuel text
    some (c :: chars, rest)
  | fuel + 1, c :: text => do
    if c.toNat < 32 then none
    let (chars, rest) ← readChars fuel text
    some (c :: chars, rest)

def readString (text : List Char) : Option (String × List Char) :=
  (readChars text.length text).map fun (chars, rest) => (String.ofList chars, rest)

/-- Reads items after the first, each behind a comma, up to the closing mark. -/
def readMore {α : Type} (close : Char) (item : List Char → Option (α × List Char)) :
    Nat → List Char → Option (List α × List Char)
  | 0, _ => none
  | fuel + 1, text =>
    match skipSpaces text with
    | ',' :: text => do
      let (first, rest) ← item (skipSpaces text)
      let (more, rest) ← readMore close item fuel rest
      some (first :: more, rest)
    | c :: text => if c = close then some ([], text) else none
    | [] => none

/-- Reads a list of items after its opening mark. -/
def readList {α : Type} (close : Char) (item : List Char → Option (α × List Char))
    (text : List Char) : Option (List α × List Char) :=
  match skipSpaces text with
  | [] => none
  | c :: rest =>
    if c = close then some ([], rest)
    else do
      let (first, rest) ← item (c :: rest)
      let (more, rest) ← readMore close item (rest.length + 1) rest
      some (first :: more, rest)

/-- Reads one member of an object: a name, a colon and a document. -/
def readMember (value : List Char → Option (Json × List Char)) :
    List Char → Option ((String × Json) × List Char)
  | '"' :: text => do
    let (name, rest) ← readString text
    match skipSpaces rest with
    | ':' :: rest => do
      let (v, rest) ← value (skipSpaces rest)
      some ((name, v), rest)
    | _ => none
  | _ => none

/-- Reads a document whose arrays and objects are nested at most as deep as given. -/
def readValue : Nat → List Char → Option (Json × List Char)
  | _, 'n' :: 'u' :: 'l' :: 'l' :: text => some (null, text)
  | _, 't' :: 'r' :: 'u' :: 'e' :: text => some (bool true, text)
  | _, 'f' :: 'a' :: 'l' :: 's' :: 'e' :: text => some (bool false, text)
  | _, '"' :: text => (readString text).map fun (s, rest) => (str s, rest)
  | depth + 1, '[' :: text =>
    (readList ']' (readValue depth) text).map fun (items, rest) => (arr items, rest)
  | depth + 1, '\x7b' :: text =>
    (readList '\x7d' (readMember (readValue depth)) text).map fun (members, rest) =>
      (obj members, rest)
  | _, text => readNumber text

/-- How deep arrays and objects may be nested. -/
def nestingLimit : Nat :=
  127

def parse? (text : String) : Option Json := do
  let (value, rest) ← readValue nestingLimit (skipSpaces text.toList)
  if (skipSpaces rest).isEmpty then some value else none

end TelemetryQuery.Json
