import TelemetryQuery.Diagnostic
import TelemetryQuery.Field.Resolution
import TelemetryQuery.Field.Similarity
import TelemetryQuery.Filter.Variable
import TelemetryQuery.Pattern.Check
import TelemetryQuery.Schema.Condition
import TelemetryQuery.Where.Predicate
/- Filters compiled to conditions on records. -/
namespace TelemetryQuery.Where

open TelemetryQuery.Field (Key Catalog)
open TelemetryQuery.Filter (KeyRef Test Atom Term Parameter Literal Variables)

/-- How alike a known name has to be to be suggested. -/
def defaultThreshold : Number :=
  .ofQuotient false (3 * Number.unitsPerOne) 4

/-- What filters are compiled against, and what of them is left out. -/
structure Options where
  table : Schema.Table := .logs
  catalog : Catalog := []
  /-- The field that searches look into; without one there are no searches. -/
  fullText : Option Key := none
  /-- Leaves out conditions on resources, unless alternatives make that unsafe. -/
  skipResource : Bool := false
  skipFullText : Bool := false
  skipCalls : Bool := false
  /-- Leaves out conditions on unknown fields. -/
  ignoreUnknown : Bool := false
  bindings : Variables := []
  threshold : Number := defaultThreshold
deriving Repr, Inhabited

/-- What a part of a filter gives: a predicate unless it is left out, and what is reported. -/
structure Outcome where
  predicate : Option Predicate
  reports : List Diagnostic
deriving Repr, Inhabited

namespace Outcome

def dropped : Outcome :=
  ⟨none, []⟩

def reported (problem : Problem) : Outcome :=
  ⟨none, [⟨problem, none⟩]⟩

/-- Puts reports before those of an outcome. -/
def after (reports : List Diagnostic) (outcome : Outcome) : Outcome :=
  { outcome with reports := reports ++ outcome.reports }

/-- Joins the predicates of outcomes and gathers their reports. -/
def join (make : List Predicate → Predicate) (outcomes : List Outcome) : Outcome :=
  ⟨Predicate.join? make (outcomes.filterMap Outcome.predicate), outcomes.flatMap Outcome.reports⟩

def map (make : Predicate → Predicate) (outcome : Outcome) : Outcome :=
  { outcome with predicate := outcome.predicate.map make }

end Outcome

/-- The fields that a key may mean, and what is reported about it. -/
structure Candidates where
  keys : List Key
  reports : List Diagnostic
deriving Repr, Inhabited

/-- The known fields of a key's name that the key accepts. A key of the body is always one. -/
def agreeing (catalog : Catalog) (key : Key) : List Key :=
  (catalog.find key.name).filter key.accepts ++
    if key.context = .body && !key.name.isEmpty then [key] else []

/-- The report about a key that no known field agrees with. -/
def Options.unknownKey (options : Options) (key : Key) (place : Text.Place) :
    List Diagnostic :=
  if key.context = .body && key.name.isEmpty then [⟨.missingBodyKey, some place⟩]
  else if options.ignoreUnknown then []
  else
    [⟨.unknownKey key.name (options.catalog.suggest options.threshold key.name), some place⟩]

/-- The fields that a key means. Of several, those of a resource win over attributes; if none
agrees, the name with its context before it is looked up. -/
def Options.candidates (options : Options) (ref : KeyRef) : Candidates :=
  let key := Field.Key.ofText ref.text
  match agreeing options.catalog key with
  | [] =>
    match options.catalog.find key.qualifiedName with
    | [] => ⟨[], options.unknownKey key ref.place⟩
    | found => ⟨found, []⟩
  | [known] => ⟨[known], []⟩
  | known =>
    let kept := if resourceWins known then known.filter (·.context == .resource) else known
    ⟨kept, [⟨.ambiguousKey key.name known, some ref.place⟩]⟩

/-- One condition for each field; the first that has no SQL is reported. Positive conditions are
alternatives, negative ones hold together. -/
def Options.conditions (options : Options) (keys : List Key) (operator : Operator)
    (value : Value) : Outcome :=
  match keys.mapM fun key => options.table.condition key operator value with
  | .ok fragments =>
    let make := if operator.isNegative then Predicate.all else Predicate.any
    ⟨Predicate.join? make (fragments.map .atom), []⟩
  | .error reason => .reported (.conditionFailed reason)

/-- The variable that a text names, with its dollar sign or without, and its name without it. -/
def named? (table : Variables) (text : String) : Option (String × Filter.Variable) :=
  match table.lookup text with
  | some v => some (String.ofList (text.toList.dropWhile (· == '$')), v)
  | none =>
    match text.toList with
    | '$' :: name => (table.lookup (String.ofList name)).map (String.ofList name, ·)
    | _ => none

/-- What becomes of the values of a comparison when variables are looked up. -/
inductive Operand where
  | value (value : Value)
  | dropped
  | emptyVariable (name : String)
deriving Repr, Inhabited

/-- A single value: a variable that is a list gives its first item. -/
def scalarOperand (table : Variables) (value : Value) : Operand :=
  match value.text?.bind (named? table) with
  | some (name, v) =>
    match v.value with
    | .list [] => .emptyVariable name
    | .list (first :: _) => .value first
    | other => .value other
  | none => .value value

/-- Several values: if there is one and it is a variable, the variable gives them all. -/
def listOperand (table : Variables) (values : List Value) : Operand :=
  match values with
  | [value] =>
    match value.text?.bind (named? table) with
    | some (name, v) =>
      if v.selectsAll then .dropped
      else
        match v.value with
        | .list [] => .emptyVariable name
        | .list items => .value (.list items)
        | other => .value (.list [other])
    | none => .value (.list values)
  | _ => .value (.list values)

def operandOf (table : Variables) : Test → Operand
  | .relation _ value => scalarOperand table value.value
  | .pattern _ _ value => scalarOperand table value.value
  | .between _ low high => .value (.list [low.value, high.value])
  | .among _ operands => listOperand table (operands.values.map Literal.value)
  | .present _ => .value .null

/-- The warning about a pattern that has no wildcards. -/
def wildcardWarning (operator : Operator) (value : Value) : List Diagnostic :=
  let hasWildcards := value.text?.any fun text => text.toList.any fun c => c = '%' || c = '_'
  if operator.isPattern && !hasWildcards then
    [⟨.withoutWildcards (operator == .ilike || operator == .notIlike), none⟩]
  else []

def Options.comparison (options : Options) (skipResource : Bool) (ref : KeyRef) (test : Test) :
    Outcome :=
  let found := options.candidates ref
  let keys :=
    if skipResource then found.keys.filter (·.context != .resource) else found.keys
  if keys.isEmpty && (skipResource || options.ignoreUnknown) then ⟨none, found.reports⟩
  else
    .after found.reports <|
      match operandOf options.bindings test with
      | .dropped => .dropped
      | .emptyVariable name => .reported (.emptyVariable name)
      | .value value =>
        .after (wildcardWarning test.operator value)
          (options.conditions keys test.operator value)

def parameterValue : Parameter → Value
  | .key key => .text key.text
  | .value literal => literal.value
  | .array literals => .list (literals.map Literal.value)

/-- The conditions of a search for a token, one for each field. The search is in the body only,
and the token is a text. -/
def tokenConditions (token : Option Value) : List Key → List Sql.Fragment × List Diagnostic
  | [] => ([], [])
  | key :: rest =>
    let outside : List Diagnostic :=
      if key.name = "body" then [] else [⟨.tokenOutsideBody .hasToken, none⟩]
    match token with
    | some (.text text) =>
      let (fragments, reports) := tokenConditions token rest
      ([.text ("hasToken(LOWER(" ++ key.name ++ "), LOWER("), .bound (.text text), .text "))"] ::
        fragments, outside ++ reports)
    | _ => ([], outside ++ [⟨.noTextParameter .hasToken, none⟩])

/-- The conditions of a call on arrays in the body, one for each field. -/
def arrayConditions (function : Filter.Function) (value : Value) :
    List Key → List Sql.Fragment × List Diagnostic
  | [] => ([], [])
  | key :: rest =>
    if key.context = .body then
      let (fragments, reports) := arrayConditions function value rest
      ([.text (function.text ++ "(" ++ Schema.Table.bodyField key ++ ", "), .bound value,
        .text ")"] :: fragments, reports)
    else ([], [⟨.callOutsideBody function, none⟩])

def Options.call (options : Options) (function : Filter.Function) (parameters : List Parameter) :
    Outcome :=
  if options.skipCalls then .dropped
  else
    match parameters with
    | .key ref :: first :: more =>
      let found := options.candidates ref
      let values := (first :: more).map parameterValue
      let list := match values with
        | [.list items] => Value.list items
        | _ => .list values
      let (fragments, reports) := match function with
        | .hasToken => tokenConditions values.head? found.keys
        | .has => arrayConditions function (parameterValue first) found.keys
        | _ => arrayConditions function list found.keys
      ⟨Predicate.join? .any (fragments.map .atom), found.reports ++ reports⟩
    | _ :: _ :: _ => .reported (.noKeyParameter function)
    | _ => .reported (.missingParameters function)

def Options.search (options : Options) (text : String) : Outcome :=
  if options.skipFullText then .dropped
  else
    match options.fullText with
    | none => .reported .fullTextUnsupported
    | some key =>
      match options.table.condition key .regexp (.text (Pattern.ofSearch text)) with
      | .ok fragment => ⟨some (.atom fragment), []⟩
      | .error reason => .reported (.fullTextFailed reason)

def Options.atom (options : Options) (skipResource : Bool) : Atom → Outcome
  | .comparison ref test => options.comparison skipResource ref test
  | .call function parameters => options.call function parameters
  | .quotedText raw => options.search (Text.unquote raw)
  | .freeText text => options.search text
  | .bareKey ref => options.search ref.text
  | .bareValue literal => options.search literal.content

/-- The negated outcome, if a flag is set. -/
def Outcome.negateIf (negated : Bool) (outcome : Outcome) : Outcome :=
  if negated then outcome.map .not else outcome

mutual

def Options.term (options : Options) (skipResource : Bool) : Term → Outcome
  | .atom negated atom => (options.atom skipResource atom).negateIf negated
  | .group negated branches =>
    ((Outcome.join .any (options.branches skipResource branches)).map .group).negateIf negated

def Options.branches (options : Options) (skipResource : Bool) : List (List Term) → List Outcome
  | [] => []
  | terms :: rest =>
    Outcome.join .all (options.terms skipResource terms) :: options.branches skipResource rest

def Options.terms (options : Options) (skipResource : Bool) : List Term → List Outcome
  | [] => []
  | term :: rest => options.term skipResource term :: options.terms skipResource rest

end

/-- A compiled filter: its SQL with the values bound in it, and warnings. -/
structure Clause where
  fragment : Sql.Fragment
  warnings : List Diagnostic
deriving Repr, Inhabited

def Clause.sql (clause : Clause) : String :=
  Sql.Fragment.sql clause.fragment

def Clause.arguments (clause : Clause) : List Value :=
  Sql.Fragment.arguments clause.fragment

/-- Why a filter has no clause. -/
inductive Failure where
  | faulty (errors : List SyntaxError)
  | semantic (errors : List Diagnostic)
deriving DecidableEq, Repr, Inhabited

namespace Failure

def message : Failure → String
  | faulty errors => SyntaxError.summary errors
  | semantic errors =>
    "Found " ++ toString errors.length ++ " errors while parsing the search expression."

def diagnostics : Failure → List Diagnostic
  | faulty errors => errors.map .ofSyntaxError
  | semantic errors => errors

/-- The message about a failure, with the filter it is about. -/
def report (failure : Failure) (text : String) : String :=
  "Failed to compile filter expression: " ++ text ++ ": " ++ failure.message

/-- The page that helps most: that of the first error which has one, or the guide to searching. -/
def page (failure : Failure) : String :=
  (Diagnostic.firstPage? failure.diagnostics).getD Problem.guide

end Failure

/-- Keeps the first warning about each ambiguous name. -/
def distinctWarnings (seen : List String) : List Diagnostic → List Diagnostic
  | [] => []
  | warning :: rest =>
    match warning.problem with
    | .ambiguousKey name _ =>
      if seen.contains name then distinctWarnings seen rest
      else warning :: distinctWarnings (name :: seen) rest
    | _ => warning :: distinctWarnings seen rest

def Options.query (options : Options) (skipResource : Bool) (query : Filter.Query) : Outcome :=
  query.elim .dropped fun branches => Outcome.join .any (options.branches skipResource branches)

/-- Compiles a filter. All errors are reported together; a filter that asks for nothing is true. -/
def compile (options : Options) (text : String) : Except Failure Clause :=
  let parsed := Filter.read text
  if !parsed.errors.isEmpty then .error (.faulty parsed.errors)
  else
    let outcome := options.query (options.skipResource && !parsed.hasOr) parsed.query
    let errors := outcome.reports.filter (!·.problem.isWarning)
    if !errors.isEmpty then .error (.semantic errors)
    else
      .ok
        { fragment := outcome.predicate.elim (.ofText "true") Predicate.fragment
          warnings := distinctWarnings [] (outcome.reports.filter (·.problem.isWarning)) }

end TelemetryQuery.Where
