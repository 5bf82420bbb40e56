/- The operators of filter conditions. -/
namespace TelemetryQuery

/-- An operator of a condition; each but `unknown` has a negation among the others. -/
inductive Operator where
  | unknown
  | equal
  | notEqual
  | greater
  | greaterEq
  | less
  | lessEq
  | like
  | notLike
  | ilike
  | notIlike
  | between
  | notBetween
  | isIn
  | notIn
  | exist
  | notExist
  | regexp
  | notRegexp
  | contains
  | notContains
deriving DecidableEq, Repr, Inhabited

namespace Operator

def all : List Operator :=
  [unknown, equal, notEqual, greater, greaterEq, less, lessEq, like, notLike, ilike, notIlike,
    between, notBetween, isIn, notIn, exist, notExist, regexp, notRegexp, contains, notContains]

/-- The operator that holds exactly when this one does not. -/
def negate : Operator → Operator
  | unknown => unknown
  | equal => notEqual
  | notEqual => equal
  | less => greaterEq
  | greaterEq => less
  | lessEq => greater
  | greater => lessEq
  | like => notLike
  | notLike => like
  | ilike => notIlike
  | notIlike => ilike
  | between => notBetween
  | notBetween => between
  | isIn => notIn
  | notIn => isIn
  | exist => notExist
  | notExist => exist
  | regexp => notRegexp
  | notRegexp => regexp
  | contains => notContains
  | notContains => contains

@[simp]
theorem negate_negate (operator : Operator) : operator.negate.negate = operator := by
  cases operator <;> rfl

/-- The negated operator if a flag is set. -/
def negateIf (negated : Bool) (operator : Operator) : Operator :=
  if negated then operator.negate else operator

/-- Whether a match says what the value is, rather than what it is not. -/
def isPositive : Operator → Bool
  | equal | greater | greaterEq | less | lessEq | like | ilike | between | isIn | exist | regexp
  | contains => true
  | _ => false

def isNegative (operator : Operator) : Bool :=
  !operator.isPositive

/-- Whether a match can only happen when the field is there. -/
def impliesExistence (operator : Operator) : Bool :=
  operator.isPositive && operator != exist

/-- The four order relations. -/
def isOrder : Operator → Bool
  | greater | greaterEq | less | lessEq => true
  | _ => false

def isPattern : Operator → Bool
  | like | notLike | ilike | notIlike => true
  | _ => false

/-- The operator as it is written in a filter. -/
def text : Operator → String
  | unknown => "UNKNOWN"
  | equal => "="
  | notEqual => "!="
  | greater => ">"
  | greaterEq => ">="
  | less => "<"
  | lessEq => "<="
  | like => "LIKE"
  | notLike => "NOT LIKE"
  | ilike => "ILIKE"
  | notIlike => "NOT ILIKE"
  | between => "BETWEEN"
  | notBetween => "NOT BETWEEN"
  | isIn => "IN"
  | notIn => "NOT IN"
  | exist => "EXISTS"
  | notExist => "NOT EXISTS"
  | regexp => "REGEXP"
  | notRegexp => "NOT REGEXP"
  | contains => "CONTAINS"
  | notContains => "NOT CONTAINS"

/-- The name of an operator in JSON documents. -/
def name : Operator → String
  | unknown => "unknown"
  | equal => "equal"
  | notEqual => "not_equal"
  | greater => "greater_than"
  | greaterEq => "greater_than_or_eq"
  | less => "less_than"
  | lessEq => "less_than_or_eq"
  | like => "like"
  | notLike => "not_like"
  | ilike => "i_like"
  | notIlike => "not_i_like"
  | between => "between"
  | notBetween => "not_between"
  | isIn => "in"
  | notIn => "not_in"
  | exist => "exists"
  | notExist => "not_exists"
  | regexp => "regexp"
  | notRegexp => "not_regexp"
  | contains => "contains"
  | notContains => "not_contains"

def ofName? (name : String) : Option Operator :=
  all.find? (·.name == name)

end Operator

end TelemetryQuery
