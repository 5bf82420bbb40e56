import TelemetryQuery.Filter.Condition
import TelemetryQuery.Filter.Parser
import TelemetryQuery.Filter.Printer
import TelemetryQuery.Text.Blank
/- Variables: references to them in text, and their values in filters. -/
namespace TelemetryQuery.Filter

/-- Where the values of a variable come from. -/
inductive VariableKind where
  | query
  | custom
  | textBox
  | dynamic
deriving DecidableEq, Repr, Inhabited

structure Variable where
  kind : VariableKind
  value : Value
deriving Repr, Inhabited

/-- Variables by name. -/
abbrev Variables :=
  List (String × Variable)

/-- The value of a dynamic variable that selects everything. -/
def allValues : String :=
  "__all__"

/-- Whether a variable selects every value, so that conditions on it are void. -/
def Variable.selectsAll (v : Variable) : Bool :=
  v.kind == .dynamic &&
    match v.value with
    | .text value => value == allValues
    | .list [.text value] => value == allValues
    | _ => false

def startsName (c : Char) : Bool :=
  c.isAlpha || c == '_'

def continuesShortName (c : Char) : Bool :=
  c.isAlphanum || c == '_'

def continuesName (c : Char) : Bool :=
  continuesShortName c || c == '.' || c == '-'

/-- A name at the start of a text, and the text after it. -/
def nameAt? (continues : Char → Bool) : List Char → Option (List Char × List Char)
  | [] => none
  | c :: text =>
    if startsName c then some (c :: text.takeWhile continues, text.dropWhile continues) else none

/-- A reference between doubled brackets, after the opening ones. Blanks may stand around the
name, and a dot before it. -/
def bracketed? (close : Char) (text : List Char) : Option (List Char × List Char) := do
  let text := text.dropWhile Text.isBlank
  let (name, rest) ← nameAt? continuesName (if text.head? = some '.' then text.tail else text)
  match rest.dropWhile Text.isBlank with
  | a :: b :: rest => if a = close && b = close then some (name, rest) else none
  | _ => none

/-- The name of a reference that a text starts with, and the text after the reference. -/
def referenceAt? : List Char → Option (List Char × List Char)
  | '\x7b' :: '\x7b' :: text => bracketed? '\x7d' text
  | '[' :: '[' :: text => bracketed? ']' text
  | '$' :: text => nameAt? continuesShortName text
  | _ => none

/-- The name of the variable, if a text is one reference and nothing else. -/
def reference? (text : String) : Option String :=
  match referenceAt? text.toList with
  | some (name, []) => some (String.ofList name)
  | _ => none

mutual

/-- A value as it is put into text: texts in single quotes, with the quotes in them doubled. -/
def formatValue : Value → String
  | .text value =>
    String.ofList ('\'' :: value.toList.flatMap (fun c => if c = '\'' then [c, c] else [c]) ++
      ['\''])
  | .list items => "[" ++ Text.joinWith ", " (formatValues items) ++ "]"
  | value => value.display

def formatValues : List Value → List String
  | [] => []
  | value :: rest => formatValue value :: formatValues rest

end

/-- A name that no variable has. -/
structure UnknownVariable where
  name : String
deriving DecidableEq, Repr, Inhabited

def UnknownVariable.message (unknown : UnknownVariable) : String :=
  "variable `" ++ unknown.name ++ "` not found"

/-- A resolved value or text, and whether the filter that uses it is to be skipped. -/
structure Resolved (α : Type) where
  result : α
  skip : Bool
deriving Repr, Inhabited

/-- The value of a variable. -/
def Variables.resolve (table : Variables) (name : String) :
    Except UnknownVariable (Resolved Value) :=
  match table.lookup name with
  | some v => .ok ⟨v.value, v.selectsAll⟩
  | none => .error ⟨name⟩

/-- The text with the values of all variables in it; unknown ones stay. The flag tells whether one
of them selects everything. -/
def Variables.substitute (table : Variables) (text : List Char) : Resolved (List Char) :=
  match text with
  | [] => ⟨[], false⟩
  | c :: tail =>
    match referenceAt? (c :: tail) with
    | some (name, rest) =>
      let length := tail.length - rest.length
      let whole := c :: tail.take length
      let more := table.substitute (tail.drop length)
      match table.lookup (String.ofList name) with
      | some v =>
        if v.selectsAll then ⟨whole ++ more.result, true⟩
        else ⟨(formatValue v.value).toList ++ more.result, more.skip⟩
      | none => ⟨whole ++ more.result, more.skip⟩
    | none =>
      let more := table.substitute tail
      ⟨c :: more.result, more.skip⟩
termination_by text.length
decreasing_by all_goals grind

/-- Puts values into the text of a filter. A text that is one reference needs its variable; a
variable that selects everything leaves no text. -/
def Variables.resolveText (table : Variables) (text : String) :
    Except UnknownVariable (Resolved String) :=
  match reference? (Text.trim text) with
  | some name => do
    let v ← table.resolve name
    return if v.skip then ⟨"", true⟩ else ⟨formatValue v.result, false⟩
  | none =>
    let resolved := table.substitute text.toList
    .ok (if resolved.skip then ⟨"", true⟩ else ⟨String.ofList resolved.result, false⟩)

/-- The variable that a word of a filter refers to: the word starts with a dollar sign, and the
name has it too or not. -/
def Variables.ofWord? (table : Variables) (word : String) : Option Variable :=
  match word.toList with
  | '$' :: rest => table.lookup word <|> table.lookup (String.ofList rest)
  | _ => none

/-- What a word of a filter becomes. -/
inductive Substitution where
  | dropped
  | value (value : Value)
  | kept
deriving Repr, Inhabited

def Variables.substitution (table : Variables) (word : String) : Substitution :=
  match table.ofWord? word with
  | some v => if v.selectsAll then .dropped else .value v.value
  | none => .kept

/-- A value written as a literal. -/
def Literal.ofValue : Value → Literal
  | .text value => .quoted (Text.quote value)
  | .bool value => .bool (Value.boolText value)
  | .number value => .number value.display
  | value => .key value.literal

/-- A literal with its variable replaced; nothing if the variable selects everything. -/
def Literal.replace (table : Variables) (literal : Literal) : Option Literal :=
  match table.substitution literal.content with
  | .dropped => none
  | .value value => some (.ofValue value)
  | .kept => some literal

/-- A literal of a list with its variable replaced; a variable that is a list gives its items. -/
def Literal.splice (table : Variables) (literal : Literal) : Option (List Literal) :=
  match table.substitution literal.content with
  | .dropped => none
  | .value (.list items) => some (items.map .ofValue)
  | .value value => some [.ofValue value]
  | .kept => some [literal]

def spliceAll (table : Variables) (literals : List Literal) : Option (List Literal) :=
  (literals.mapM (Literal.splice table)).map List.flatten

def KeyRef.replace (table : Variables) (key : KeyRef) : Option KeyRef :=
  match table.substitution key.text with
  | .dropped => none
  | .value value => some { key with text := value.literal }
  | .kept => some key

def Operands.replace (table : Variables) : Operands → Option Operands
  | paren values => (spliceAll table values).map paren
  | bracket values => (spliceAll table values).map paren
  | single value =>
    match table.substitution value.content with
    | .value (.list items) => some (.bracket (items.map .ofValue))
    | _ => (value.replace table).map single

def Test.replace (table : Variables) : Test → Option Test
  | relation op value => (value.replace table).map (relation op)
  | pattern negated matcher value => (value.replace table).map (pattern negated matcher)
  | between negated low high => do
    return between negated (← low.replace table) (← high.replace table)
  | among negated operands => (operands.replace table).map (among negated)
  | present negated => some (present negated)

def Parameter.replace (table : Variables) : Parameter → Option Parameter
  | key ref =>
    match table.substitution ref.text with
    | .dropped => none
    | .value replacement => some (.value (.ofValue replacement))
    | .kept => some (key ref)
  | value literal => (literal.replace table).map value
  | array values => (spliceAll table values).map array

/-- An atom with its variables replaced; nothing if one of them selects everything. -/
def Atom.replace (table : Variables) : Atom → Option Atom
  | comparison key test => do
    return comparison (← key.replace table) (← test.replace table)
  | call function parameters => (parameters.mapM (Parameter.replace table)).map (call function)
  | bareKey key =>
    match table.substitution key.text with
    | .dropped => none
    | .value (.text value) => some (quotedText (Text.quote value))
    | .value value => some (bareValue (.ofValue value))
    | .kept => some (bareKey key)
  | bareValue value => (value.replace table).map bareValue
  | atom => some atom

mutual

/-- A term with its variables replaced. Terms that are dropped take conjunctions and groups with
them that they leave empty. -/
def Term.replace (table : Variables) : Term → Option Term
  | .atom negated atom => (atom.replace table).map (.atom negated)
  | .group negated branches =>
    match replaceBranches table branches with
    | [] => none
    | kept => some (.group negated kept)

def replaceBranches (table : Variables) : List (List Term) → List (List Term)
  | [] => []
  | terms :: rest =>
    match replaceTerms table terms with
    | [] => replaceBranches table rest
    | kept => kept :: replaceBranches table rest

def replaceTerms (table : Variables) : List Term → List Term
  | [] => []
  | term :: rest => (term.replace table).toList ++ replaceTerms table rest

end

def Query.replace (table : Variables) (query : Query) : Query :=
  query.bind fun branches =>
    match replaceBranches table branches with
    | [] => none
    | kept => some kept

/-- The text of a filter with its variables replaced, or the errors in it. -/
def replaceVariables (table : Variables) (text : String) : Except (List SyntaxError) String :=
  (parse text).map fun query => Query.render (Query.replace table query)

end TelemetryQuery.Filter
