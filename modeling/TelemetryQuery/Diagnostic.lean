import TelemetryQuery.Field.Key
import TelemetryQuery.Filter.Expr
import TelemetryQuery.Schema.Table
import TelemetryQuery.SyntaxError
/- What is reported about an expression: errors that stop it, and warnings. -/
namespace TelemetryQuery

/-- What an expression is reported for. -/
inductive Problem where
  | faulty (error : SyntaxError)
  | unknownKey (name : String) (suggestion : Option String)
  | ambiguousKey (name : String) (candidates : List Field.Key)
  | missingBodyKey
  /-- A search for a token elsewhere than in the body. -/
  | tokenOutsideBody (function : Filter.Function)
  /-- A call on a field outside the body. -/
  | callOutsideBody (function : Filter.Function)
  | missingParameters (function : Filter.Function)
  | noKeyParameter (function : Filter.Function)
  | noTextParameter (function : Filter.Function)
  | emptyVariable (name : String)
  | fullTextUnsupported
  | conditionFailed (reason : Schema.Refusal)
  | fullTextFailed (reason : Schema.Refusal)
  /-- A pattern without wildcards, in which case counts or not. -/
  | withoutWildcards (caseless : Bool)
deriving DecidableEq, Repr, Inhabited

/-- A problem with its place, where it is known. -/
structure Diagnostic where
  problem : Problem
  place : Option Text.Place := none
deriving DecidableEq, Repr, Inhabited

/-- Whether fields of a name are in a resource and among attributes, so that the resource wins. -/
def resourceWins (candidates : List Field.Key) : Bool :=
  candidates.any (·.context == .resource) && candidates.any (·.context == .attributes)

namespace Problem

def kind : Problem → String
  | faulty _ => "syntax"
  | unknownKey _ _ => "unknown_key"
  | ambiguousKey _ _ => "ambiguous_key"
  | missingBodyKey => "missing_body_key"
  | tokenOutsideBody _ => "unsupported_function"
  | callOutsideBody _ => "unsupported_function"
  | missingParameters _ => "function_arguments"
  | noKeyParameter _ => "function_arguments"
  | noTextParameter _ => "function_arguments"
  | emptyVariable _ => "empty_variable"
  | fullTextUnsupported => "full_text_unsupported"
  | conditionFailed _ => "condition_failed"
  | fullTextFailed _ => "condition_failed"
  | withoutWildcards _ => "like_without_wildcards"

/-- Whether a problem leaves the expression usable. -/
def isWarning : Problem → Bool
  | ambiguousKey _ _ => true
  | withoutWildcards _ => true
  | _ => false

def ambiguousMessage (name : String) (candidates : List Field.Key) : String :=
  "Key `" ++ name ++ "` is ambiguous, found " ++ toString candidates.length ++
    " different combinations of field context / data type: [" ++
    Text.joinWith " " (candidates.map Field.Key.display) ++ "]." ++
    if resourceWins candidates then
      " Using `resource` context by default. To query attributes explicitly, use the fully " ++
        "qualified name (e.g., 'attribute." ++ name ++ "')"
    else ""

def message : Problem → String
  | faulty error => error.message
  | unknownKey name suggestion =>
    "key `" ++ name ++ "` not found" ++
      suggestion.elim "" fun found => " Did you mean `" ++ found ++ "`?"
  | ambiguousKey name candidates => ambiguousMessage name candidates
  | missingBodyKey =>
    "missing key for body json search - expected key of the form `body.key` (ex: `body.status`)"
  | tokenOutsideBody function =>
    "function `" ++ function.text ++ "` only supports body field as first parameter"
  | callOutsideBody function => "function `" ++ function.text ++ "` supports only body JSON search"
  | missingParameters function =>
    "function `" ++ function.text ++ "` expects key and value parameters"
  | noKeyParameter function =>
    "function `" ++ function.text ++ "` expects key parameter to be a field key"
  | noTextParameter function =>
    "function `" ++ function.text ++ "` expects value parameter to be a string"
  | emptyVariable name =>
    "malformed request payload: variable `" ++ name ++
      "` used in expression has an empty list value"
  | fullTextUnsupported => "full text search is not supported"
  | conditionFailed reason => "failed to build condition: " ++ reason.message
  | fullTextFailed reason => "failed to build full text search condition: " ++ reason.message
  | withoutWildcards caseless =>
    (if caseless then "ILIKE" else "LIKE") ++
      " operator used without wildcards (% or _). Consider using = operator for exact matches " ++
      "or add wildcards for pattern matching."

def guide : String :=
  "https://signoz.io/docs/userguide/search-troubleshooting/"

/-- The page that explains a problem. -/
def page? : Problem → Option String
  | unknownKey _ _ => some (guide ++ "#key-fieldname-not-found")
  | ambiguousKey _ _ => some "https://signoz.io/docs/userguide/field-context-data-types/"
  | callOutsideBody _ => some (guide ++ "#function-supports-only-body-json-search")
  | tokenOutsideBody _ =>
    some "https://signoz.io/docs/userguide/functions-reference/#hastoken-function"
  | noTextParameter _ =>
    some "https://signoz.io/docs/userguide/functions-reference/#hastoken-function"
  | withoutWildcards _ =>
    some "https://signoz.io/docs/userguide/operators-reference/#string-matching-operators"
  | _ => none

end Problem

/-- The page of the first problem that has one. -/
def Diagnostic.firstPage? (diagnostics : List Diagnostic) : Option String :=
  diagnostics.findSome? (·.problem.page?)

def Diagnostic.ofSyntaxError (error : SyntaxError) : Diagnostic :=
  ⟨.faulty error, some error.place⟩

end TelemetryQuery
