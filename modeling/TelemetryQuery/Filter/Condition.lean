import TelemetryQuery.Field.KeyText
import TelemetryQuery.Filter.Expr
import TelemetryQuery.Number.Decimal
import TelemetryQuery.Operator
import TelemetryQuery.Text.Quoted
import TelemetryQuery.Value
/- Conditions: what a comparison says of which field. -/
namespace TelemetryQuery.Filter

/-- The text of a literal; quoted text without its quotes. -/
def Literal.content : Literal → String
  | quoted raw => Text.unquote raw
  | literal => literal.raw

/-- The value of a literal; a key stands for its text. -/
def Literal.value : Literal → Value
  | quoted raw => .text (Text.unquote raw)
  | number raw => (Number.ofText? raw).elim (.text raw) .number
  | bool raw => .bool (Text.sameIgnoringCase raw "true")
  | key raw => .text raw

def Relation.operator : Relation → Operator
  | equal => .equal
  | notEqual => .notEqual
  | unequal => .notEqual
  | less => .less
  | lessEq => .lessEq
  | greater => .greater
  | greaterEq => .greaterEq

def Matcher.operator : Matcher → Operator
  | like => .like
  | ilike => .ilike
  | regexp => .regexp
  | contains => .contains

def Test.operator : Test → Operator
  | relation op _ => op.operator
  | pattern negated matcher _ => matcher.operator.negateIf negated
  | between negated _ _ => Operator.between.negateIf negated
  | among negated _ => Operator.isIn.negateIf negated
  | present negated => Operator.exist.negateIf negated

def Test.literals : Test → List Literal
  | relation _ value => [value]
  | pattern _ _ value => [value]
  | between _ low high => [low, high]
  | among _ operands => operands.values
  | present _ => []

/-- What a condition compares its field with. -/
inductive Operand where
  | scalar (value : Value)
  | range (low high : Value)
  | list (values : List Value)
  | none
deriving Repr, Inhabited

/-- A field, an operator and what the field is compared with. -/
structure Condition where
  key : Field.Key
  operator : Operator
  operand : Operand
deriving Repr, Inhabited

def Test.operand : Test → Operand
  | relation _ value => .scalar value.value
  | pattern _ _ value => .scalar value.value
  | between _ low high => .range low.value high.value
  | among _ operands => .list (operands.values.map Literal.value)
  | present _ => .none

def Condition.ofComparison (key : KeyRef) (test : Test) : Condition :=
  ⟨Field.Key.ofText key.text, test.operator, test.operand⟩

def Condition.render (condition : Condition) : String :=
  let head := condition.key.toText ++ " " ++ condition.operator.text
  match condition.operand with
  | .scalar value => head ++ " " ++ value.literal
  | .range low high => head ++ " " ++ low.literal ++ " AND " ++ high.literal
  | .list values => head ++ " (" ++ Text.joinWith ", " (values.map Value.literal) ++ ")"
  | .none => head

end TelemetryQuery.Filter
