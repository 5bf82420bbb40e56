import TelemetryQuery.Filter.Condition
import TelemetryQuery.Filter.Parser
/- Conditions on one field that no record can meet together. -/
namespace TelemetryQuery.Filter

/-- What a condition asks of its field, with the texts of its literals. -/
structure Constraint where
  operator : Operator
  operands : List String
deriving DecidableEq, Repr, Inhabited

/-- The text that a constraint with one operand compares with. -/
def Constraint.operand (constraint : Constraint) : String :=
  constraint.operands.headD ""

/-- The lower and the upper number of a range, if both are numbers. -/
def Constraint.bounds? (constraint : Constraint) : Option (Number × Number) :=
  match constraint.operands with
  | [low, high] => do return (← Number.ofText? low, ← Number.ofText? high)
  | _ => none

/-- A bound of an interval: its number, and whether it belongs to the interval. -/
structure Bound where
  number : Number
  inclusive : Bool
deriving DecidableEq, Repr, Inhabited

/-- The higher of two lower bounds; of equal ones the one that leaves the number out. -/
def Bound.raise (current : Option Bound) (bound : Bound) : Option Bound :=
  match current with
  | none => some bound
  | some old =>
    if old.number.lt bound.number ||
        bound.number.same old.number && !bound.inclusive && old.inclusive then
      some bound
    else some old

/-- The lower of two upper bounds; of equal ones the one that leaves the number out. -/
def Bound.lower (current : Option Bound) (bound : Bound) : Option Bound :=
  match current with
  | none => some bound
  | some old =>
    if bound.number.lt old.number ||
        bound.number.same old.number && !bound.inclusive && old.inclusive then
      some bound
    else some old

/-- The bounds of an interval as far as they are known. -/
structure Interval where
  lower : Option Bound
  upper : Option Bound
deriving DecidableEq, Repr, Inhabited

/-- Narrows an interval by an order constraint; what is no number narrows nothing. -/
def Interval.narrow (interval : Interval) (constraint : Constraint) : Interval :=
  match Number.ofText? constraint.operand with
  | none => interval
  | some number =>
    match constraint.operator with
    | .greater => { interval with lower := Bound.raise interval.lower ⟨number, false⟩ }
    | .greaterEq => { interval with lower := Bound.raise interval.lower ⟨number, true⟩ }
    | .less => { interval with upper := Bound.lower interval.upper ⟨number, false⟩ }
    | .lessEq => { interval with upper := Bound.lower interval.upper ⟨number, true⟩ }
    | _ => interval

/-- Whether no number lies between the bounds. -/
def Interval.isEmpty (interval : Interval) : Bool :=
  match interval.lower, interval.upper with
  | some low, some high =>
    high.number.lt low.number ||
      low.number.same high.number && !(low.inclusive && high.inclusive)
  | _, _ => false

/-- Whether order constraints leave no number. -/
def infeasible (ranges : List Constraint) : Bool :=
  (ranges.foldl Interval.narrow ⟨none, none⟩).isEmpty

/-- Whether a number meets an order constraint; what is no number cannot be checked. -/
def meetsOrder (number : Number) (constraint : Constraint) : Bool :=
  match Number.ofText? constraint.operand with
  | none => true
  | some bound =>
    match constraint.operator with
    | .greater => bound.lt number
    | .greaterEq => bound.le number
    | .less => number.lt bound
    | .lessEq => number.le bound
    | _ => true

/-- Whether a text meets all order constraints, as far as it is a number. -/
def meetsOrders (text : String) (ranges : List Constraint) : Bool :=
  (Number.ofText? text).all fun number => ranges.all (meetsOrder number)

/-- Whether a number lies in a range; ends that are no numbers hold everything. -/
def numberWithin (number : Number) (range : Constraint) : Bool :=
  match range.bounds? with
  | some (low, high) => low.le number && number.le high
  | none => range.operands.length == 2

/-- Whether a text lies in a range; one that is no number counts as inside. -/
def within (text : String) (range : Constraint) : Bool :=
  range.operands.length == 2 && (Number.ofText? text).all (numberWithin · range)

/-- The larger number; what is not a number gives way. -/
def maxNumber (a b : Number) : Number :=
  if a.isNaN then b else if b.isNaN then a else if a.lt b then b else a

/-- The smaller number; what is not a number gives way. -/
def minNumber (a b : Number) : Number :=
  if a.isNaN then b else if b.isNaN then a else if b.lt a then b else a

/-- The numbers that two ranges share. -/
def intersect (a b : Number × Number) : Number × Number :=
  (maxNumber a.1 b.1, minNumber a.2 b.2)

/-- Whether the ranges of numbers have a number in common. -/
def haveCommon (ranges : List Constraint) : Bool :=
  match ranges.filterMap Constraint.bounds? with
  | [] => true
  | first :: rest =>
    let (low, high) := rest.foldl intersect first
    low.le high

/-- Whether both ends and the middle of a range are left out by other ranges. -/
def coveredBy (excluded : List Constraint) (range : Constraint) : Bool :=
  match range.bounds? with
  | none => false
  | some (low, high) =>
    [low, high, (low.add high).div (Number.ofNat 2)].all fun probe =>
      excluded.any (numberWithin probe)

/-- The pattern test that is understood: a percent sign at either end stands for any text. -/
def matchesLike (text pattern : String) : Bool :=
  let chars := text.toList
  match pattern.toList with
  | '%' :: rest =>
    match rest.getLast? with
    | none => true
    | some '%' => Text.occursIn rest.dropLast chars
    | some _ => rest.isSuffixOf chars
  | whole =>
    match whole.getLast? with
    | some '%' => whole.dropLast.isPrefixOf chars
    | _ => whole == chars

/-- What is wrong with the constraints on a field. -/
inductive Contradiction where
  | severalValues
  | equalAndNot (value : String)
  | equalsExcluded (value : String)
  | equalsUnlisted (value : String)
  | overlappingLists (values : List String)
  | emptyRange
  | outsideRange (value : String)
  | existsAndNot
  | impliedExistence (operator : Operator)
  | disjointBetween
  | outsideBetween (value : String)
  | insideNotBetween (value : String)
  | coveredBetween
  | patternMismatch (value pattern : String)
deriving DecidableEq, Repr, Inhabited

def Contradiction.message (field : String) (contradiction : Contradiction) : String :=
  "Field '" ++ field ++ "' " ++ match contradiction with
    | severalValues => "cannot equal multiple different values"
    | equalAndNot value => "cannot both equal and not equal '" ++ value ++ "'"
    | equalsExcluded value => "equals '" ++ value ++ "' but is in NOT IN list"
    | equalsUnlisted value => "equals '" ++ value ++ "' but is not in IN list"
    | overlappingLists values =>
      "has overlapping IN and NOT IN values: [" ++ Text.joinWith ", " values ++ "]"
    | emptyRange => "has contradictory range constraints"
    | outsideRange value => "equals '" ++ value ++ "' which violates range constraints"
    | existsAndNot => "cannot both exist and not exist"
    | impliedExistence operator =>
      "has NOT EXISTS but also has " ++ operator.text ++ " which implies existence"
    | disjointBetween => "has non-overlapping BETWEEN ranges"
    | outsideBetween value => "equals '" ++ value ++ "' which is outside BETWEEN range(s)"
    | insideNotBetween value =>
      "equals '" ++ value ++ "' which is excluded by NOT BETWEEN range"
    | coveredBetween => "has BETWEEN and NOT BETWEEN ranges that exclude all values"
    | patternMismatch value pattern =>
      "equals '" ++ value ++ "' which doesn't match LIKE pattern '" ++ pattern ++ "'"

def findIf (holds : Bool) (contradiction : Contradiction) : List Contradiction :=
  if holds then [contradiction] else []

/-- The contradictions among the constraints on one field, in the order of the checks. -/
def contradictions (constraints : List Constraint) : List Contradiction :=
  let having (operator : Operator) := constraints.filter (·.operator == operator)
  let equal := (having .equal).map Constraint.operand
  let notEqual := (having .notEqual).map Constraint.operand
  let lists := (having .isIn).map Constraint.operands
  let excluded := (having .notIn).map Constraint.operands
  let between := having .between
  let notBetween := having .notBetween
  let ranges := constraints.filter (·.operator.isOrder)
  let patterns := (constraints.filter fun c => c.operator == .like || c.operator == .ilike).map
    Constraint.operand
  let absent := !(having .notExist).isEmpty
  findIf (1 < (Text.distinct equal).length) .severalValues ++
  (equal.flatMap fun value =>
    notEqual.flatMap fun other => findIf (value == other) (.equalAndNot value)) ++
  (equal.flatMap fun value =>
    (excluded.flatMap fun list =>
      list.flatMap fun v => findIf (v == value) (.equalsExcluded value)) ++
    lists.flatMap fun list => findIf (!list.contains value) (.equalsUnlisted value)) ++
  (lists.flatMap fun list =>
    excluded.flatMap fun other =>
      let overlap := list.filter other.contains
      findIf (!overlap.isEmpty) (.overlappingLists overlap)) ++
  findIf (infeasible ranges) .emptyRange ++
  (equal.flatMap fun value => findIf (!meetsOrders value ranges) (.outsideRange value)) ++
  findIf (!(having .exist).isEmpty && absent) .existsAndNot ++
  (if absent then
    ((constraints.find? (·.operator.impliesExistence)).map fun c =>
      Contradiction.impliedExistence c.operator).toList
  else []) ++
  findIf (2 ≤ between.length && !haveCommon between) .disjointBetween ++
  (equal.flatMap fun value =>
    findIf (!between.isEmpty && !between.any (within value)) (.outsideBetween value)) ++
  (equal.flatMap fun value =>
    notBetween.flatMap fun range => findIf (within value range) (.insideNotBetween value)) ++
  (between.flatMap fun range =>
    findIf (!notBetween.isEmpty && coveredBy notBetween range) .coveredBetween) ++
  (equal.flatMap fun value =>
    patterns.flatMap fun pattern =>
      findIf (!matchesLike value pattern) (.patternMismatch value pattern))

/-- The constraints in force, each with its field, in the order they were met. -/
abbrev Constraints :=
  List (String × Constraint)

/-- The constraints of a comparison under negations; one that only a present field can meet comes
with the constraint that the field is there. -/
def constraintsOf (negated : Bool) (test : Test) : List Constraint :=
  let operator := test.operator.negateIf negated
  (if operator.impliesExistence then [⟨.exist, []⟩] else []) ++
    [⟨operator, test.literals.map Literal.content⟩]

def Constraints.messages (constraints : Constraints) (field : String) : List String :=
  let own := (constraints.filter (·.1 == field)).map (·.2)
  (contradictions own).map (Contradiction.message field)

mutual

/-- Adds the constraints of a term and gives what they contradict. A negation turns the operators
below it; alternatives start alike and leave nothing in force. -/
def Term.detect (negated : Bool) (constraints : Constraints) : Term → Constraints × List String
  | .atom flip (.comparison key test) =>
    let added := (constraintsOf (negated != flip) test).map (key.text, ·)
    let constraints := constraints ++ added
    (constraints, constraints.messages key.text)
  | .atom _ _ => (constraints, [])
  | .group flip branches => detectBranches (negated != flip) constraints branches

/-- Alternatives: a single one counts for what follows, several do not. -/
def detectBranches (negated : Bool) (constraints : Constraints) :
    List (List Term) → Constraints × List String
  | [] => (constraints, [])
  | [terms] => detectTerms negated constraints terms
  | terms :: rest =>
    (constraints, (detectTerms negated constraints terms).2 ++
      detectAlternatives negated constraints rest)

def detectAlternatives (negated : Bool) (constraints : Constraints) :
    List (List Term) → List String
  | [] => []
  | terms :: rest =>
    (detectTerms negated constraints terms).2 ++ detectAlternatives negated constraints rest

def detectTerms (negated : Bool) (constraints : Constraints) :
    List Term → Constraints × List String
  | [] => (constraints, [])
  | term :: rest =>
    let (constraints, found) := term.detect negated constraints
    let (constraints, more) := detectTerms negated constraints rest
    (constraints, found ++ more)

end

/-- The contradictions in a filter, each message once, in the order they are found. -/
def Query.contradictions (query : Query) : List String :=
  query.elim [] fun branches => Text.distinct (detectBranches false [] branches).2

/-- The contradictions in a filter text, or the errors in it. -/
def detectContradictions (text : String) : Except (List SyntaxError) (List String) :=
  (parse text).map Query.contradictions

end TelemetryQuery.Filter
