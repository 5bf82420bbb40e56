import TelemetryQuery.Settings.Entry
/- Settings files in the TOML format. -/
namespace TelemetryQuery.Settings.Toml

def isSpace (c : Char) : Bool :=
  c = ' ' || c = '\t'

/-- Characters that stand nowhere in a file, other than line ends. -/
def isControl (c : Char) : Bool :=
  (c.toNat < 32 && c != '\t') || c.toNat = 127

def skipSpaces (text : List Char) : List Char :=
  text.dropWhile isSpace

/-- What follows a line end. -/
def newline? : List Char → Option (List Char)
  | '\n' :: rest => some rest
  | '\r' :: '\n' :: rest => some rest
  | _ => none

/-- What follows a comment, if there is one; it stops before the line end. -/
def skipComment? (text : List Char) : Option (List Char) :=
  match text with
  | '#' :: rest =>
    let comment := rest.takeWhile fun c => c != '\n' && c != '\r'
    if comment.any isControl then none else some (rest.drop comment.length)
  | _ => some text

/-- What follows the end of a line on which nothing but a comment may stand. -/
def endLine? (text : List Char) : Option (List Char) := do
  match ← skipComment? (skipSpaces text) with
  | [] => some []
  | rest => newline? rest

/-- Skips blanks, line ends and comments between the items of a list. -/
def skipLines? (text : List Char) : Option (List Char) :=
  match skipSpaces text with
  | '#' :: rest => do
    let left ← skipComment? ('#' :: rest)
    if left.length < text.length then skipLines? left else none
  | rest =>
    match newline? rest with
    | some left => if left.length < text.length then skipLines? left else none
    | none => some rest
termination_by text.length

def hexValue? (c : Char) : Option Nat :=
  if c.isDigit then some (c.toNat - 48)
  else if 'a' ≤ c && c ≤ 'f' then some (c.toNat - 87)
  else if 'A' ≤ c && c ≤ 'F' then some (c.toNat - 55)
  else none

/-- The character of a number written in some hexadecimal digits. -/
def codePoint? (digits : List Char) (count : Nat) : Option Char := do
  if digits.length != count then none
  else
    let values ← digits.mapM hexValue?
    let code := values.foldl (16 * · + ·) 0
    if Nat.isValidChar code then some (Char.ofNat code) else none

/-- The character of an escape after its backslash, and what follows it. -/
def escape? : List Char → Option (Char × List Char)
  | 'b' :: rest => some ('\x08', rest)
  | 't' :: rest => some ('\t', rest)
  | 'n' :: rest => some ('\n', rest)
  | 'f' :: rest => some ('\x0c', rest)
  | 'r' :: rest => some ('\r', rest)
  | '"' :: rest => some ('"', rest)
  | '\\' :: rest => some ('\\', rest)
  | 'u' :: rest => (codePoint? (rest.take 4) 4).map (·, rest.drop 4)
  | 'U' :: rest => (codePoint? (rest.take 8) 8).map (·, rest.drop 8)
  | _ => none

/-- A text after its opening quote, in which backslashes escape. -/
def basic? (text : List Char) : Option (List Char × List Char) :=
  match text with
  | [] => none
  | '"' :: rest => some ([], rest)
  | '\\' :: rest => do
    let (c, left) ← escape? rest
    if left.length ≤ rest.length then
      let (value, left) ← basic? left
      return (c :: value, left)
    else none
  | c :: rest =>
    if isControl c then none else (basic? rest).map fun (value, left) => (c :: value, left)
termination_by text.length

/-- A text after its opening quote, in which nothing is escaped. -/
def literal? : List Char → Option (List Char × List Char)
  | [] => none
  | '\'' :: rest => some ([], rest)
  | c :: rest =>
    if isControl c then none else (literal? rest).map fun (value, left) => (c :: value, left)

/-- Quotes that stand before the closing ones; at most two can. -/
def extraQuotes (quote : Char) (text : List Char) : Nat :=
  min 2 (text.takeWhile (· = quote)).length

/-- What follows a backslash at the end of a line: it joins the line with the next text. -/
def joinLines? (text : List Char) : Option (List Char) :=
  (newline? (skipSpaces text)).map (·.dropWhile fun c => isSpace c || c = '\n' || c = '\r')

/-- A text over several lines, after its opening quotes. -/
def multiline? (quote : Char) (text : List Char) : Option (List Char × List Char) :=
  match text with
  | [] => none
  | c :: rest =>
    if c = quote && rest.take 2 = [quote, quote] then
      let extra := extraQuotes quote (rest.drop 2)
      some (List.replicate extra quote, rest.drop (2 + extra))
    else if c = '\\' && quote = '"' then
      match joinLines? rest with
      | some left => if left.length ≤ rest.length then multiline? quote left else none
      | none => do
        let (c, left) ← escape? rest
        if left.length ≤ rest.length then
          let (value, left) ← multiline? quote left
          return (c :: value, left)
        else none
    else if isControl c && c != '\n' && !(c = '\r' && rest.head? = some '\n') then none
    else (multiline? quote rest).map fun (value, left) => (c :: value, left)
termination_by text.length

/-- A text of any of the four kinds, if one starts here. -/
def string? (text : List Char) : Option (List Char × List Char) :=
  match text with
  | '"' :: '"' :: '"' :: rest => multiline? '"' ((newline? rest).getD rest)
  | '\'' :: '\'' :: '\'' :: rest => multiline? '\'' ((newline? rest).getD rest)
  | '"' :: rest => basic? rest
  | '\'' :: rest => literal? rest
  | _ => none

def isKeyChar (c : Char) : Bool :=
  c.isAlphanum || c = '_' || c = '-'

/-- One part of a key: bare, or in quotes. -/
def keyPart? (text : List Char) : Option (String × List Char) :=
  match text with
  | '"' :: rest => (basic? rest).map fun (value, left) => (String.ofList value, left)
  | '\'' :: rest => (literal? rest).map fun (value, left) => (String.ofList value, left)
  | _ =>
    let bare := text.takeWhile isKeyChar
    if bare.isEmpty then none else some (String.ofList bare, text.drop bare.length)

/-- A key: parts with dots between them. -/
def key? (text : List Char) : Option (List String × List Char) := do
  let (part, rest) ← keyPart? (skipSpaces text)
  match skipSpaces rest with
  | '.' :: more =>
    if more.length < text.length then
      let (parts, rest) ← key? more
      return (part :: parts, rest)
    else none
  | rest => return ([part], rest)
termination_by text.length

/-- Digits without the underscores between them. -/
def digits? (isDigit : Char → Bool) : List Char → Option (List Char)
  | [c] => if isDigit c then some [c] else none
  | c :: '_' :: rest => if isDigit c then (digits? isDigit rest).map (c :: ·) else none
  | c :: rest => if isDigit c then (digits? isDigit rest).map (c :: ·) else none
  | [] => none

/-- Decimal digits that do not start with a needless zero. -/
def decimal? (text : List Char) : Option (List Char) :=
  (digits? Char.isDigit text).filter fun digits => digits.head? != some '0' || digits.length = 1

def split (text : List Char) : Bool × List Char :=
  match text with
  | '-' :: rest => (true, rest)
  | '+' :: rest => (false, rest)
  | _ => (false, text)

/-- A whole number in a base, if it is in range. -/
def based? (base : Nat) (text : List Char) : Option Entry := do
  let digits ← digits? (fun c => (hexValue? c).any (· < base)) text
  let value := (digits.filterMap hexValue?).foldl (base * · + ·) 0
  if value < 2 ^ 63 then some (.int value) else none

def int? (text : List Char) : Option Entry :=
  match text with
  | '0' :: 'x' :: rest => based? 16 rest
  | '0' :: 'o' :: rest => based? 8 rest
  | '0' :: 'b' :: rest => based? 2 rest
  | _ => do
    let (negative, rest) := split text
    let size := Number.digitsValue 0 (← decimal? rest)
    if negative then if size ≤ 2 ^ 63 then some (.int (-size)) else none
    else if size < 2 ^ 63 then some (.int size)
    else none

/-- An exponent without the underscores in it. -/
def exponent? (text : List Char) : Option (List Char) :=
  let (negative, rest) := split text
  (digits? Char.isDigit rest).map fun digits => if negative then '-' :: digits else digits

/-- A number with a fraction or an exponent, or a word for one that is not finite. -/
def float? (text : List Char) : Option Entry := do
  let (negative, rest) := split text
  if rest = "inf".toList then some (.float (.infinite negative))
  else if rest = "nan".toList then some (.float .nan)
  else
    let mantissa := rest.takeWhile fun c => c != 'e' && c != 'E'
    let whole := mantissa.takeWhile (· != '.')
    let fraction := mantissa.drop (whole.length + 1)
    let hasPoint := whole.length < mantissa.length
    let hasExponent := mantissa.length < rest.length
    if !hasPoint && !hasExponent then none
    else
      let whole ← decimal? whole
      let fraction ← if hasPoint then digits? Char.isDigit fraction else some []
      let power ←
        if hasExponent then exponent? (rest.drop (mantissa.length + 1)) else some ['0']
      (Number.readDigits? negative (whole ++ '.' :: fraction ++ 'e' :: power)).map .float

/-- Whether a word has the shape of a date or of a time of day. -/
def isDateTime (word : List Char) : Bool :=
  let digitsAt (positions : List Nat) := positions.all fun i => (word.getD i ' ').isDigit
  (digitsAt [0, 1, 2, 3, 5, 6, 8, 9] && word.getD 4 ' ' = '-' && word.getD 7 ' ' = '-') ||
    (digitsAt [0, 1, 3, 4] && word.getD 2 ' ' = ':')

/-- A word that is a yes or a no, a number, a date or a time. -/
def scalar? (word : List Char) : Option Entry :=
  if word = "true".toList then some (.bool true)
  else if word = "false".toList then some (.bool false)
  else if isDateTime word then some (.text (String.ofList word))
  else (int? word).or (float? word)

def endsWord (c : Char) : Bool :=
  isSpace c || isControl c || [',', ']', '\x7d', '#'].contains c

/-- Adds an entry under a key of parts that has none yet. Tables on the way are made. -/
def insertNew? (path : List String) (value : Entry) (members : List (String × Entry)) :
    Option (List (String × Entry)) :=
  match path with
  | [] => none
  | [name] => if (members.lookup name).isSome then none else some (put name value members)
  | name :: rest =>
    match members.lookup name with
    | none => (insertNew? rest value []).map fun inner => put name (.table inner) members
    | some (.table inner) =>
      (insertNew? rest value inner).map fun inner => put name (.table inner) members
    | some _ => none

section

variable (value : List Char → Option (Entry × List Char))

/-- The items of a list, after its opening bracket. -/
def items? (text : List Char) : Option (List Entry × List Char) := do
  let rest ← skipLines? text
  match rest with
  | ']' :: left => return ([], left)
  | _ =>
    let (item, left) ← value rest
    match ← skipLines? left with
    | ',' :: more =>
      if more.length < text.length then
        let (others, left) ← items? more
        return (item :: others, left)
      else none
    | ']' :: left => return ([item], left)
    | _ => none
termination_by text.length

/-- The members of a table on one line, where one has to stand. -/
def pairs? (members : List (String × Entry)) (text : List Char) :
    Option (List (String × Entry) × List Char) := do
  let (path, rest) ← key? text
  match rest with
  | '=' :: rest =>
    let (item, left) ← value (skipSpaces rest)
    let members ← insertNew? path item members
    match skipSpaces left with
    | ',' :: more => if more.length < text.length then pairs? members more else none
    | '\x7d' :: left => return (members, left)
    | _ => none
  | _ => none
termination_by text.length

/-- A table on one line, after its opening bracket. -/
def inlineTable? (text : List Char) : Option (Entry × List Char) :=
  match skipSpaces text with
  | '\x7d' :: rest => some (.table [], rest)
  | _ => (pairs? value [] text).map fun (members, rest) => (.table members, rest)

end

/-- A value with at most `depth` lists and tables inside each other. -/
def value? : Nat → List Char → Option (Entry × List Char)
  | 0, _ => none
  | depth + 1, text =>
    match text with
    | '[' :: rest => (items? (value? depth) rest).map fun (items, left) => (.list items, left)
    | '\x7b' :: rest => inlineTable? (value? depth) rest
    | c :: _ =>
      if c = '"' || c = '\'' then
        (string? text).map fun (value, left) => (.text (String.ofList value), left)
      else
        let word := text.takeWhile (!endsWord ·)
        (scalar? word).map (·, text.drop word.length)
    | [] => none

/-- How deep lists and tables may be nested. -/
def depthLimit : Nat :=
  80

/-- A file as far as it is read: its table, the path of the table that keys go into, the tables
that have a header, those that keys with dots have made, and those on one line. -/
structure Document where
  root : Entry := .table []
  current : List String := []
  headed : List (List String) := []
  dotted : List (List String) := []
  closed : List (List String) := []
deriving Repr, Inhabited

/-- Changes the entry at a path. In a list of tables, the path goes through the last one. -/
def change? (change : Option Entry → Option Entry) (path : List String) (root : Entry) :
    Option Entry :=
  match path, root with
  | [], _ => none
  | _ :: _, .list _ => none
  | [name], .table members =>
    (change (members.lookup name)).map fun entry => .table (put name entry members)
  | name :: rest, .table members =>
    match (members.lookup name).getD (.table []) with
    | .list items => do
      let last ← change? change rest (items.getLastD (.table []))
      return .table (put name (.list (items.dropLast ++ [last])) members)
    | inner => do
      return .table (put name (← change? change rest inner) members)
  | _, _ => none

/-- The proper beginnings of a path that go beyond its first parts. -/
def beginnings (least : Nat) (path : List String) : List (List String) :=
  (List.range path.length).filterMap fun i => if least < i then some (path.take i) else none

namespace Document

/-- Starts the table of a header. -/
def openTable? (document : Document) (path : List String) : Option Document := do
  if document.headed.contains path || document.dotted.contains path ||
      (path :: beginnings 0 path).any document.closed.contains then none
  else
    let root ← change? (fun
      | none => some (.table [])
      | some (.table members) => some (.table members)
      | some _ => none) path document.root
    return { document with root, current := path, headed := path :: document.headed }

/-- Starts one more table in a list of tables. -/
def appendTable? (document : Document) (path : List String) : Option Document := do
  if document.headed.contains path || (path :: beginnings 0 path).any document.closed.contains then
    none
  else
    let root ← change? (fun
      | none => some (.list [.table []])
      | some (.list items) => some (.list (items ++ [.table []]))
      | some _ => none) path document.root
    let outside (other : List String) := !path.isPrefixOf other
    return { document with
      root
      current := path
      headed := document.headed.filter outside
      dotted := document.dotted.filter outside
      closed := document.closed.filter outside }

/-- Adds a key with its value to the current table. -/
def add? (document : Document) (key : List String) (value : Entry) : Option Document := do
  let path := document.current ++ key
  let made := beginnings document.current.length path
  if made.any document.headed.contains || (beginnings 0 path).any document.closed.contains then none
  else
    let setNew (entry : Option Entry) : Option Entry :=
      if entry.isSome then none else some value
    let root ← match document.current with
      | [] => change? setNew key document.root
      | current =>
        change? (fun
          | some (.list items) => do
            let last ← change? setNew key (items.getLastD (.table []))
            return .list (items.dropLast ++ [last])
          | some table => change? setNew key table
          | none => none) current document.root
    let closed := match value with
      | .table _ => path :: document.closed
      | _ => document.closed
    return { document with root, dotted := made ++ document.dotted, closed }

end Document

/-- Reads one line or, if a value goes over several, those lines. -/
def line? (document : Document) (text : List Char) : Option (Document × List Char) :=
  match skipSpaces text with
  | '[' :: '[' :: rest => do
    let (path, rest) ← key? rest
    match rest with
    | ']' :: ']' :: rest => return (← document.appendTable? path, ← endLine? rest)
    | _ => none
  | '[' :: rest => do
    let (path, rest) ← key? rest
    match rest with
    | ']' :: rest => return (← document.openTable? path, ← endLine? rest)
    | _ => none
  | rest =>
    match endLine? rest with
    | some left => some (document, left)
    | none => do
      let (key, rest) ← key? rest
      match rest with
      | '=' :: rest =>
        let (entry, rest) ← value? depthLimit (skipSpaces rest)
        return (← document.add? key entry, ← endLine? rest)
      | _ => none

def lines? (document : Document) (text : List Char) : Option Document :=
  if text.isEmpty then some document
  else do
    let (document, left) ← line? document text
    if left.length < text.length then lines? document left else none
termination_by text.length

def parse? (text : String) : Option Entry :=
  (lines? {} text.toList).map Document.root

end TelemetryQuery.Settings.Toml
