import TelemetryQuery.Filter.Expr
import TelemetryQuery.Text.Basic
/- Filter expressions written back as text. -/
namespace TelemetryQuery.Filter

/-- The word before a negated test or term. -/
def negation (negated : Bool) : String :=
  if negated then "NOT " else ""

def literalList (values : List Literal) : String :=
  Text.joinWith ", " (values.map Literal.raw)

def Operands.render : Operands → String
  | paren values => "(" ++ literalList values ++ ")"
  | bracket values => "[" ++ literalList values ++ "]"
  | single value => value.raw

def Test.render : Test → String
  | relation op value => op.text ++ " " ++ value.raw
  | pattern negated matcher value => negation negated ++ matcher.text ++ " " ++ value.raw
  | between negated low high => negation negated ++ "BETWEEN " ++ low.raw ++ " AND " ++ high.raw
  | among negated operands => negation negated ++ "IN " ++ operands.render
  | present negated => negation negated ++ "EXISTS"

def Parameter.render : Parameter → String
  | key ref => ref.text
  | value literal => literal.raw
  | array values => "[" ++ literalList values ++ "]"

def Atom.render : Atom → String
  | comparison key test => key.text ++ " " ++ test.render
  | call function parameters =>
    function.text ++ "(" ++ Text.joinWith ", " (parameters.map Parameter.render) ++ ")"
  | quotedText raw => raw
  | freeText text => text
  | bareKey key => key.text
  | bareValue value => value.raw

mutual

def Term.render : Term → String
  | .atom negated atom => negation negated ++ atom.render
  | .group negated branches =>
    negation negated ++ "(" ++ Text.joinWith " OR " (renderBranches branches) ++ ")"

def renderBranches : List (List Term) → List String
  | [] => []
  | terms :: rest => Text.joinWith " AND " (renderTerms terms) :: renderBranches rest

def renderTerms : List Term → List String
  | [] => []
  | term :: rest => term.render :: renderTerms rest

end

def Disjunction.render (branches : Disjunction) : String :=
  Text.joinWith " OR " (renderBranches branches)

def Query.render (query : Query) : String :=
  query.elim "" Disjunction.render

end TelemetryQuery.Filter
