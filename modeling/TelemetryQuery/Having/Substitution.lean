import TelemetryQuery.Aggregate.Function
import TelemetryQuery.Having.Columns
import TelemetryQuery.Having.Parser
import TelemetryQuery.Number.Decimal
import TelemetryQuery.Text.Word
/- References of a condition replaced by the columns of their results. -/
namespace TelemetryQuery.Having

/-- A piece of the pattern that finds a reference. -/
inductive PatternPiece where
  /-- A word starts or ends here. -/
  | boundary
  /-- Any number of blanks. -/
  | blanks
  | char (c : Char)
deriving DecidableEq, Repr, Inhabited

/-- A letter, a numeral or an underscore. -/
def isNameChar (c : Char) : Bool :=
  Text.isAlphanumeric c || c == '_'

/-- The pieces of a character of a call: blanks may stand around its punctuation. -/
def callPieces : Char → List PatternPiece
  | '(' => [.blanks, .char '(', .blanks]
  | ')' => [.blanks, .char ')']
  | ',' => [.blanks, .char ',', .blanks]
  | c => [.char c]

/-- The pattern of a reference. A name has to be a whole word; a call ends with its bracket. -/
def referencePattern (reference : List Char) : List PatternPiece :=
  (if reference.head?.any isNameChar then [.boundary] else []) ++
    if reference.contains '(' then
      (reference.filter (!Text.isBlank ·)).flatMap callPieces
    else
      reference.map .char ++ if reference.getLast?.any isNameChar then [.boundary] else []

/-- How many characters of a text a pattern takes, given the character before the text. -/
def matchLength? : List PatternPiece → Option Char → List Char → Option Nat
  | [], _, _ => some 0
  | .boundary :: pattern, before, text =>
    if Text.isBoundary before text.head? then matchLength? pattern before text else none
  | .blanks :: pattern, before, text =>
    let blanks := text.takeWhile Text.isBlank
    let before := blanks.getLast?.or before
    (matchLength? pattern before (text.dropWhile Text.isBlank)).map (blanks.length + ·)
  | .char c :: pattern, _, text =>
    match text with
    | [] => none
    | d :: rest => if c = d then (matchLength? pattern (some c) rest).map (1 + ·) else none

/-- Puts a mark in place of each match of a pattern, leftmost first and without overlap. A match
of no characters puts the mark before the next one. -/
def markMatches (pattern : List PatternPiece) (mark : List Char) (before : Option Char)
    (text : List Char) : List Char :=
  match text with
  | [] => if (matchLength? pattern before []).isSome then mark else []
  | c :: rest =>
    match matchLength? pattern before (c :: rest) with
    | none => c :: markMatches pattern mark (some c) rest
    | some 0 => mark ++ c :: markMatches pattern mark (some c) rest
    | some (length + 1) =>
      let last := ((c :: rest).take (length + 1)).getLast?
      mark ++ markMatches pattern mark last (rest.drop length)
termination_by text.length
decreasing_by all_goals grind

/-- The mark of a position in a table, between two control characters. -/
def markOf (control : Char) (i : Nat) : List Char :=
  control :: (toString i).toList ++ [control]

/-- Puts the entries of a table in place of their marks; a mark without an entry vanishes. -/
def fillMarks (control : Char) (table : List String) (text : List Char) : List Char :=
  match text with
  | [] => []
  | c :: rest =>
    let digits := rest.takeWhile Char.isDigit
    if c = control && !digits.isEmpty && (rest.drop digits.length).head? = some control then
      (table[Number.digitsValue 0 digits]?.getD "").toList ++
        fillMarks control table (rest.drop (digits.length + 1))
    else c :: fillMarks control table rest
termination_by text.length
decreasing_by all_goals grind

/-- References longest first, so that a short one is not found inside a longer one. -/
def longestFirst (columns : Columns) : List (String × String) :=
  columns.mergeSort fun a b =>
    b.1.utf8ByteSize < a.1.utf8ByteSize || (a.1.utf8ByteSize == b.1.utf8ByteSize && a.1 ≤ b.1)

/-- The text of a condition with each reference replaced by its column. References are first
replaced by marks, so that a column is never taken for a reference. -/
def substitute (columns : Columns) (text : String) : String :=
  let table := longestFirst columns
  let marked := table.zipIdx.foldl
    (fun text ((reference, _), i) =>
      markMatches (referencePattern reference.toList) (markOf '\x00' i) none text)
    text.toList
  let filled := fillMarks '\x00' (table.map (·.2)) marked
  String.ofList (fillMarks '\x01' [] filled)

/-- Why a condition on results is refused. -/
inductive Refusal where
  | quotedText
  | faulty (errors : List SyntaxError)
  | functionCalls
  | unknown (references : List String) (known : List String)
deriving DecidableEq, Repr, Inhabited

def Refusal.message : Refusal → String
  | quotedText => "`Having` expression contains string literals"
  | faulty _ => "Syntax error in `Having` expression"
  | functionCalls => "Functions are not allowed in `Having` expression"
  | unknown references _ =>
    "Invalid references in `Having` expression: [" ++ Text.joinWith ", " references ++ "]"

def Refusal.details : Refusal → List String
  | quotedText => ["Aggregator results are numeric"]
  | faulty errors => [Text.joinWith "; " (errors.map SyntaxError.message)]
  | functionCalls => []
  | unknown _ known => ["Valid references are: [" ++ Text.joinWith ", " known ++ "]"]

/-- Whether a reference names a result: a reference of the columns or a column itself, or a call
that differs from a reference at most in blanks. -/
def Columns.knows (columns : Columns) : Reference → Bool
  | .identifier name => columns.references.contains name || columns.targets.contains name
  | .call _ text => (columns.references.map Text.removeBlanks).contains (Text.removeBlanks text)

/-- Whether a reference calls an aggregate function. -/
def Reference.isAggregate : Reference → Bool
  | identifier _ => false
  | call name _ => (Aggregate.Function.ofName? name).isSome

def checkReferences (columns : Columns) (references : List Reference) : Except Refusal Unit :=
  let invalid := references.filter (!columns.knows ·)
  if invalid.isEmpty then .ok ()
  else if invalid.any Reference.isAggregate then .error .functionCalls
  else
    let known := columns.references.filter (!columns.targets.contains ·)
    .error (.unknown (Text.distinct (invalid.map Reference.text)) known)

/-- The text of a condition in terms of result columns; blank text stays empty. -/
def resolve (columns : Columns) (text : String) : Except Refusal String := do
  if Text.isBlankText text then return ""
  if text.toList.any fun c => c = '\'' || c = '"' then throw .quotedText
  match parse text with
  | .error errors => throw (.faulty errors)
  | .ok none => pure ()
  | .ok (some expr) => checkReferences columns expr.references
  let resolved := substitute columns text
  match parse resolved with
  | .error errors => throw (.faulty errors)
  | .ok _ => return resolved

end TelemetryQuery.Having
