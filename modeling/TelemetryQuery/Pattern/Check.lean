import TelemetryQuery.Pattern.Property
import TelemetryQuery.Text.Blank
import TelemetryQuery.Text.Numeric
/- Which texts are search patterns. -/
namespace TelemetryQuery.Pattern

/-- The flags in force that bear on whether a pattern is valid. -/
structure Flags where
  /-- Blanks and comments are skipped. -/
  extended : Bool
  /-- Classes hold characters rather than bytes. -/
  unicode : Bool
deriving DecidableEq, Repr, Inhabited

/-- The text after blanks and comments; a comment goes to the end of its line. -/
def skipIgnored (inComment : Bool) : List Char → List Char
  | [] => []
  | c :: text =>
    if inComment then skipIgnored (c != '\n') text
    else if Text.isBlank c then skipIgnored false text
    else if c = '#' then skipIgnored true text
    else c :: text

def Flags.skip (flags : Flags) (text : List Char) : List Char :=
  if flags.extended then skipIgnored false text else text

/-- What stands for one place of a pattern. -/
inductive Primitive where
  /-- A character; one given by a byte is marked. -/
  | literal (c : Char) (byte : Bool)
  | charClass
  | assertion
deriving DecidableEq, Repr, Inhabited

def isHex (c : Char) : Bool :=
  c.isDigit || ('a' ≤ c && c ≤ 'f') || ('A' ≤ c && c ≤ 'F')

def hexValue (digits : List Char) : Nat :=
  digits.foldl
    (fun n c =>
      16 * n + if c.isDigit then c.toNat - 48 else (c.toLower.toNat - 87))
    0

/-- The character of a code given in hexadecimal digits. -/
def charOfHex? (digits : List Char) : Option Char :=
  let code := hexValue digits
  if !digits.isEmpty && code.isValidChar then some (Char.ofNat code) else none

/-- A fixed number of hexadecimal digits. -/
def readHex? (flags : Flags) : Nat → List Char → Option (List Char × List Char)
  | 0, text => some ([], text)
  | _ + 1, [] => none
  | n + 1, c :: text =>
    if isHex c then (readHex? flags n (flags.skip text)).map fun (digits, rest) =>
      (c :: digits, rest)
    else none

/-- The characters up to a closing brace. The fuel bounds how many there are. -/
def readBraced? (flags : Flags) : Nat → List Char → Option (List Char × List Char)
  | 0, _ => none
  | fuel + 1, text =>
    match flags.skip text with
    | [] => none
    | '\x7d' :: rest => some ([], rest)
    | c :: rest => (readBraced? flags fuel rest).map fun (inside, rest) => (c :: inside, rest)

/-- A character given by its code, after the letter that says how. -/
def readCode? (flags : Flags) (letter : Char) (text : List Char) :
    Option (Primitive × List Char) :=
  match flags.skip text with
  | '\x7b' :: rest => do
    let (digits, rest) ← readBraced? flags (rest.length + 1) rest
    if !digits.all isHex then none
    let c ← charOfHex? digits
    return (.literal c false, flags.skip rest)
  | text => do
    let count := if letter = 'x' then 2 else if letter = 'u' then 4 else 8
    let (digits, rest) ← readHex? flags count text
    let c ← charOfHex? digits
    return (.literal c (letter = 'x'), rest)

/-- A class of characters with a property, after its letter. -/
def readProperty? (flags : Flags) (text : List Char) : Option (Primitive × List Char) :=
  match flags.skip text with
  | [] => none
  | '\x7b' :: rest => do
    let (name, rest) ← readBraced? flags (rest.length + 1) rest
    if flags.unicode && isPropertyText name then some (.charClass, rest) else none
  | c :: rest =>
    if c != '\\' && flags.unicode && isProperty [c] then some (.charClass, rest) else none

/-- Characters with a meaning of their own. -/
def isMeta (c : Char) : Bool :=
  ['\\', '.', '+', '*', '?', '(', ')', '|', '[', ']', '\x7b', '\x7d', '^', '$', '#', '&', '-',
    '~'].contains c

def isBoundaryChar (c : Char) : Bool :=
  c.isAlpha || c == '-'

/-- The kind of word boundary in braces, if one is there; braces that hold no name are left for
the count of a repetition. The outer option tells whether the text is valid. -/
def readBoundaryKind? (flags : Flags) (text : List Char) : Option (List Char) :=
  match text with
  | '\x7b' :: rest =>
    match flags.skip rest with
    | [] => none
    | c :: inside =>
      if !isBoundaryChar c then some text
      else do
        let (name, rest) ← readBraced? flags (inside.length + 2) (c :: inside)
        if String.ofList name ∈ ["start", "end", "start-half", "end-half"] then some rest
        else none
  | _ => some text

/-- What an escape stands for, after its backslash. -/
def readEscape? (flags : Flags) : List Char → Option (Primitive × List Char)
  | [] => none
  | c :: text =>
    if c.isDigit then none
    else if c = 'x' || c = 'u' || c = 'U' then readCode? flags c text
    else if c = 'p' || c = 'P' then readProperty? flags text
    else if c = 'd' || c = 's' || c = 'w' then some (.charClass, text)
    else if c = 'D' || c = 'S' || c = 'W' then
      if flags.unicode then some (.charClass, text) else none
    else if isMeta c then some (.literal c false, text)
    else if c = 'b' then (readBoundaryKind? flags text).map fun rest => (.assertion, rest)
    else if c = 'A' || c = 'z' || c = 'B' || c = '<' || c = '>' then some (.assertion, text)
    else if c = 'a' then some (.literal '\x07' false, text)
    else if c = 'f' then some (.literal '\x0c' false, text)
    else if c = 't' then some (.literal '\t' false, text)
    else if c = 'n' then some (.literal '\n' false, text)
    else if c = 'r' then some (.literal '\r' false, text)
    else if c = 'v' then some (.literal '\x0b' false, text)
    else if c.toNat < 128 && !c.isAlphanum then some (.literal c false, text)
    else none

/-- The names of classes in brackets and colons. -/
def asciiClasses : List String :=
  ["alnum", "alpha", "ascii", "blank", "cntrl", "digit", "graph", "lower", "print", "punct",
    "space", "upper", "word", "xdigit"]

/-- The text after a named class, given the text after its opening bracket. -/
def asciiClass? : List Char → Option (List Char)
  | ':' :: text =>
    let text := if text.head? = some '^' then text.tail else text
    match Text.cutAt? (· == ':') text with
    | some (name, ']' :: rest) =>
      if String.ofList name ∈ asciiClasses then some rest else none
    | _ => none
  | _ => none

/-- What has been read of a set of characters: how deep its parts are nested before the last
operator, the number of items after it and their depth. -/
structure SetState where
  left : Option Nat
  count : Nat
  depth : Nat
deriving DecidableEq, Repr, Inhabited

namespace SetState

def add (state : SetState) (depth : Nat) : SetState :=
  { state with count := state.count + 1, depth := max state.depth depth }

/-- The depth of all that has been read. -/
def total (state : SetState) : Nat :=
  let union := if state.count ≤ 1 then state.depth else state.depth + 1
  state.left.elim union fun left => 1 + max left union

def operator (state : SetState) : SetState :=
  ⟨some state.total, 0, 0⟩

end SetState

/-- The literal dashes that a set may start with. -/
def skipDashes (flags : Flags) (state : SetState) : Nat → List Char → SetState × List Char
  | 0, text => (state, text)
  | fuel + 1, text =>
    match text with
    | '-' :: rest => skipDashes flags (state.add 0) fuel (flags.skip rest)
    | text => (state, text)

/-- The start of a set after its opening bracket: a negation, dashes, or a closing bracket that
stands for itself. -/
def openSet? (flags : Flags) (text : List Char) : Option (SetState × List Char) :=
  let text := flags.skip text
  let (negated, text) := match text with
    | '^' :: rest => (true, flags.skip rest)
    | text => (false, text)
  let (state, text) := skipDashes flags ⟨none, 0, 0⟩ text.length text
  if negated && !flags.unicode then none
  else
    match text with
    | [] => none
    | ']' :: rest =>
      if state.count = 0 then
        let rest := flags.skip rest
        if rest.isEmpty then none else some (state.add 0, rest)
      else some (state, text)
    | text => some (state, text)

/-- Whether a character may stand in a set. -/
def allowedInSet (flags : Flags) (c : Char) : Bool :=
  flags.unicode || c.toNat < 128

/-- One end of a range in a set. -/
def readSetItem? (flags : Flags) : List Char → Option (Primitive × List Char)
  | [] => none
  | '\\' :: rest => readEscape? flags rest
  | c :: rest => some (.literal c false, rest)

/-- An item of a set: a character, a class or a range of characters. -/
def readRange? (flags : Flags) (text : List Char) : Option (List Char) := do
  let (first, rest) ← readSetItem? flags text
  let single : Option (List Char) :=
    match first with
    | .literal c _ => if allowedInSet flags c then some (flags.skip rest) else none
    | .charClass => some (flags.skip rest)
    | .assertion => none
  match flags.skip rest with
  | [] => none
  | '-' :: rest =>
    match (flags.skip rest).head? with
    | some ']' => single
    | some '-' => single
    | _ => do
      let (second, rest) ← readSetItem? flags (flags.skip rest)
      match first, second with
      | .literal low _, .literal high _ =>
        if low ≤ high && allowedInSet flags low && allowedInSet flags high then some rest else none
      | _, _ => none
  | _ => single

/-- Reads a set up to its closing bracket and gives its depth. -/
def readSet? (flags : Flags) : Nat → SetState → List Char → Option (Nat × List Char)
  | 0, _, _ => none
  | fuel + 1, state, text =>
    match flags.skip text with
    | [] => none
    | '[' :: rest =>
      match asciiClass? rest with
      | some rest => readSet? flags fuel (state.add 0) rest
      | none => do
        let (opened, rest) ← openSet? flags rest
        let (depth, rest) ← readSet? flags fuel opened rest
        readSet? flags fuel (state.add (1 + depth)) rest
    | ']' :: rest => some (state.total, rest)
    | '&' :: '&' :: rest => readSet? flags fuel state.operator rest
    | '-' :: '-' :: rest => readSet? flags fuel state.operator rest
    | '~' :: '~' :: rest => readSet? flags fuel state.operator rest
    | text => do
      let rest ← readRange? flags text
      readSet? flags fuel (state.add 0) rest

/-- An item of a sequence: whether it can be repeated, and how deep its parts are nested. -/
structure Item where
  repeatable : Bool
  depth : Nat
deriving DecidableEq, Repr, Inhabited

/-- An open group, or the whole pattern: the flags around it, the depth of its finished
alternatives, and the items of the current one, last first. -/
structure Level where
  outer : Flags
  finished : Option Nat
  items : List Item
deriving DecidableEq, Repr, Inhabited

namespace Level

def sequenceDepth (level : Level) : Nat :=
  match level.items with
  | [] => 0
  | [item] => item.depth
  | items => 1 + items.foldl (fun depth item => max depth item.depth) 0

def depth (level : Level) : Nat :=
  level.finished.elim level.sequenceDepth fun depth => 1 + max depth level.sequenceDepth

def push (level : Level) (item : Item) : Level :=
  { level with items := item :: level.items }

def alternate (level : Level) : Level :=
  { level with
    finished := some (max (level.finished.getD 0) level.sequenceDepth)
    items := [] }

def repeat? (level : Level) : Option Level :=
  match level.items with
  | item :: items =>
    if item.repeatable then
      some { level with items := ⟨true, item.depth + 1⟩ :: items }
    else none
  | [] => none

end Level

/-- What has been read of a pattern: the flags in force, the names of groups, and the open groups
from the innermost outwards. -/
structure State where
  flags : Flags
  names : List (List Char)
  level : Level
  outer : List Level
deriving DecidableEq, Repr, Inhabited

/-- How deep a pattern may be nested. -/
def nestingLimit : Nat :=
  250

/-- The name of a group up to its closing mark. -/
def readGroupName? (text : List Char) : Option (List Char × List Char) :=
  match Text.cutAt? (· == '>') text with
  | some (name, rest) =>
    match name with
    | [] => none
    | c :: tail =>
      let starts := c == '_' || Text.isAlphabetic c
      let continues := tail.all fun c =>
        c == '_' || c == '.' || c == '[' || c == ']' || Text.isAlphanumeric c
      if starts && continues then some (name, rest) else none
  | none => none

/-- The flags of a group up to the mark that ends them: which ones stand there, the flags they
give, the mark, and the text after it. A flag may stand only once, and a negation needs one. -/
def readFlags? (flags : Flags) (seen : List Char) (negated : Bool) :
    List Char → Option (List Char × Flags × Char × List Char)
  | [] => none
  | c :: text =>
    if c = ':' || c = ')' then
      if seen.head? = some '-' then none else some (seen, flags, c, text)
    else if seen.contains c then none
    else if c = '-' then readFlags? flags (c :: seen) true text
    else if c = 'x' then readFlags? { flags with extended := !negated } (c :: seen) negated text
    else if c = 'u' then readFlags? { flags with unicode := !negated } (c :: seen) negated text
    else if c ∈ ['i', 'm', 's', 'U', 'R'] then readFlags? flags (c :: seen) negated text
    else none

namespace State

def enter (state : State) (flags : Flags) : State :=
  { state with
    flags
    level := ⟨state.flags, none, []⟩
    outer := state.level :: state.outer }

def openNamed? (state : State) (text : List Char) : Option (State × List Char) := do
  let (name, rest) ← readGroupName? text
  if state.names.contains name then none
  else some ({ state.enter state.flags with names := name :: state.names }, rest)

/-- The start of a group after its bracket. -/
def openGroup? (state : State) (text : List Char) : Option (State × List Char) :=
  match state.flags.skip text with
  | '?' :: '=' :: _ => none
  | '?' :: '!' :: _ => none
  | '?' :: '<' :: '=' :: _ => none
  | '?' :: '<' :: '!' :: _ => none
  | '?' :: 'P' :: '<' :: rest => state.openNamed? rest
  | '?' :: '<' :: rest => state.openNamed? rest
  | '?' :: rest => do
    let (seen, flags, mark, rest) ← readFlags? state.flags [] false rest
    if mark = ':' then some (state.enter flags, rest)
    else if seen.isEmpty then none
    else some ({ state with flags, level := state.level.push ⟨false, 0⟩ }, rest)
  | rest => some (state.enter state.flags, rest)

def close? (state : State) : Option State :=
  match state.outer with
  | [] => none
  | level :: outer =>
    some { state with
      flags := state.level.outer
      level := level.push ⟨true, 1 + state.level.depth⟩
      outer }

def push (state : State) (depth : Nat) : State :=
  { state with level := state.level.push ⟨true, depth⟩ }

def repeat? (state : State) : Option State :=
  state.level.repeat?.map fun level => { state with level }

end State

/-- A whole number that fits into 32 bits, with blanks around it; the outer option tells whether
it fits, the inner one whether there are digits. -/
def readCount? (flags : Flags) (text : List Char) : Option (Option Nat × List Char) :=
  let text := text.dropWhile Text.isBlank
  let (digits, rest) := digitsOf text.length text
  let rest := rest.dropWhile Text.isBlank
  let rest := flags.skip rest
  if digits.isEmpty then some (none, rest)
  else
    let count := digits.foldl (fun n c => 10 * n + (c.toNat - 48)) 0
    if count < 2 ^ 32 then some (some count, rest) else none
where
  /-- Digits, with what is ignored between them left out. -/
  digitsOf : Nat → List Char → List Char × List Char
    | 0, text => ([], text)
    | fuel + 1, text =>
      match text with
      | c :: rest =>
        if c.isDigit then
          let (digits, rest) := digitsOf fuel (flags.skip rest)
          (c :: digits, rest)
        else ([], text)
      | [] => ([], [])

/-- The bounds of a repetition after its opening brace. -/
def readBounds? (flags : Flags) (text : List Char) : Option (List Char) := do
  let (least, rest) ← readCount? flags (flags.skip text)
  let least ← least
  match rest with
  | '\x7d' :: rest => some rest
  | ',' :: rest =>
    match flags.skip rest with
    | '\x7d' :: rest => some rest
    | rest => do
      let (most, rest) ← readCount? flags rest
      let most ← most
      match rest with
      | '\x7d' :: rest => if least ≤ most then some rest else none
      | _ => none
  | _ => none

/-- The text after the mark of a repetition that takes as little as it can. -/
def skipLazy (text : List Char) : List Char :=
  if text.head? = some '?' then text.tail else text

/-- Whether the rest of a pattern is valid. -/
def valid : Nat → State → List Char → Bool
  | 0, _, _ => false
  | fuel + 1, state, text =>
    let flags := state.flags
    match flags.skip text with
    | [] => state.outer.isEmpty && state.level.depth ≤ nestingLimit
    | '(' :: rest => (state.openGroup? rest).any fun (state, rest) => valid fuel state rest
    | ')' :: rest => state.close?.any fun state => valid fuel state rest
    | '|' :: rest => valid fuel { state with level := state.level.alternate } rest
    | '[' :: rest =>
      ((openSet? flags rest).bind fun (set, rest) => readSet? flags (rest.length + 1) set rest).any
        fun (depth, rest) => valid fuel (state.push (1 + depth)) rest
    | '?' :: rest => state.repeat?.any fun state => valid fuel state (skipLazy rest)
    | '*' :: rest => state.repeat?.any fun state => valid fuel state (skipLazy rest)
    | '+' :: rest => state.repeat?.any fun state => valid fuel state (skipLazy rest)
    | '\x7b' :: rest =>
      state.repeat?.any fun state => (readBounds? flags rest).any fun rest =>
        valid fuel state (skipLazy (flags.skip rest))
    | '\\' :: rest =>
      (readEscape? flags rest).any fun (primitive, rest) =>
        match primitive with
        | .literal c byte =>
          (flags.unicode || !byte || c.toNat < 128) && valid fuel (state.push 0) rest
        | _ => valid fuel (state.push 0) rest
    | '.' :: rest => flags.unicode && valid fuel (state.push 0) rest
    | _ :: rest => valid fuel (state.push 0) rest

/-- Whether a text is a search pattern. -/
def isPattern (text : String) : Bool :=
  let flags : Flags := ⟨false, true⟩
  valid (text.toList.length + 1) ⟨flags, [], ⟨flags, none, []⟩, []⟩ text.toList

/-- The pattern that finds a text as it stands. -/
def literally (text : String) : String :=
  String.ofList (text.toList.flatMap fun c => if isMeta c then ['\\', c] else [c])

/-- The pattern of a search: the text itself if it is one, or else one that finds it. -/
def ofSearch (text : String) : String :=
  if isPattern text then text else literally text

end TelemetryQuery.Pattern
