import TelemetryQuery.Aggregate.Function
import TelemetryQuery.Sql.Statement
import TelemetryQuery.Where.Clause
/- Aggregations compiled to SQL: calls get their SQL names, and fields their columns. -/
namespace TelemetryQuery.Aggregate

open TelemetryQuery.Field (Key)
open TelemetryQuery.Sql (Expr Fragment)

/-- How many seconds rates are counted over, if nothing else is asked for. -/
def defaultInterval : Nat :=
  60

/-- What aggregations are compiled against. -/
structure Options where
  filter : Where.Options := {}
  interval : Nat := defaultInterval
  /-- Fields that all records have; of those with one name the last counts. -/
  intrinsic : List Key := []
deriving Repr, Inhabited

/-- Why an aggregation has no SQL. -/
inductive Failure where
  | unreadable (reason : Sql.Unreadable)
  | arity (reason : Function.ArityError)
  | filter (reason : Where.Failure)
  | column (reason : Schema.Refusal)
deriving Repr, Inhabited

/-- A compiled part of an aggregation. -/
structure Part where
  fragment : Fragment
  warnings : List Diagnostic := []
  /-- A call of an aggregate function is in it. -/
  changed : Bool := false
  /-- One of the calls is a rate. -/
  rate : Bool := false
deriving Repr, Inhabited

namespace Part

/-- A part that stays as it is written. -/
def plain (text : String) : Part :=
  { fragment := .ofText text }

def append (a b : Part) : Part :=
  { fragment := a.fragment ++ b.fragment
    warnings := a.warnings ++ b.warnings
    changed := a.changed || b.changed
    rate := a.rate || b.rate }

instance : Append Part :=
  ⟨append⟩

/-- Parts with commas between them. -/
def listing : List Part → Part
  | [] => { fragment := [] }
  | [part] => part
  | part :: rest => part ++ plain ", " ++ listing rest

end Part

/-- The column of a field that is named in an aggregation. -/
def Options.column (options : Options) (numeric : Bool) (name : String) :
    Except Failure String :=
  let key := Key.ofText name
  let intrinsic := options.intrinsic.reverse.find? (·.name == key.name)
  let resolved := (key.resolve options.filter.catalog intrinsic).result
  match options.filter.table.field resolved with
  | .ok column =>
    let cast := numeric && resolved.type != .number
    .ok (if cast then "toFloat64OrNull(" ++ column ++ ")" else column)
  | .error reason => .error (.column reason)

mutual

/-- An argument of an aggregate function, with the columns of its fields. -/
def Options.operand (options : Options) (numeric : Bool) : Expr → Except Failure String
  | .name parts => options.column numeric (Text.joinWith "." (parts.map Sql.Ident.value))
  | .unary op inner => do return op.text ++ (← options.operand numeric inner)
  | .binary left op right => do
    let left ← options.operand numeric left
    return left ++ " " ++ op.text ++ " " ++ (← options.operand numeric right)
  | .nested inner => do return "(" ++ (← options.operand numeric inner) ++ ")"
  | .labelled label value => do return label.text ++ " => " ++ (← options.operand numeric value)
  | .call function parameters mode arguments => do
    return Sql.nameText function ++ parameters ++ "(" ++ mode ++
      Text.joinWith ", " (← options.operands numeric arguments) ++ ")"
  | expr => .ok expr.render

def Options.operands (options : Options) (numeric : Bool) :
    List Expr → Except Failure (List String)
  | [] => .ok []
  | expr :: rest => do
    let first ← options.operand numeric expr
    return first :: (← options.operands numeric rest)

end

/-- The condition of a conditional function: its argument, read as a filter. -/
def Options.condition (options : Options) (expr : Expr) : Except Failure Part :=
  match Where.compile options.filter expr.render with
  | .ok clause => .ok { fragment := clause.fragment, warnings := clause.warnings }
  | .error reason => .error (.filter reason)

/-- An argument that is a condition; a star is none. -/
def Options.conditionArgument (options : Options) : Expr → Except Failure Part
  | .all parts => .ok (.plain (Expr.all parts).render)
  | .labelled label (.all parts) => .ok (.plain (Expr.labelled label (.all parts)).render)
  | .labelled label value => do
    return .plain (label.text ++ " => ") ++ (← options.condition value)
  | expr => options.condition expr

/-- The arguments of an aggregate function, the last of which may be a condition. -/
def Options.arguments (options : Options) (function : Function) :
    List Expr → Except Failure (List Part)
  | [] => .ok []
  | [last] => do
    if function.conditional then return [← options.conditionArgument last]
    else return [.plain (← options.operand function.numeric last)]
  | expr :: rest => do
    let first ← options.operand function.numeric expr
    return .plain first :: (← options.arguments function rest)

def Options.aggregate (options : Options) (function : Function) (parameters mode : String)
    (arguments : List Expr) : Except Failure Part := do
  match function.checkArity arguments.length with
  | .error reason => .error (.arity reason)
  | .ok () =>
    let parts ← options.arguments function arguments
    let opening := Part.plain (function.sqlName ++ parameters ++ "(" ++ mode)
    let call := opening ++ Part.listing parts ++ Part.plain ")"
    return { call with changed := true, rate := function.rate }

mutual

/-- An expression with the calls of aggregate functions in it. -/
def Options.expr (options : Options) : Expr → Except Failure Part
  | .unary op inner => do return .plain op.text ++ (← options.expr inner)
  | .binary left op right => do
    let left ← options.expr left
    return left ++ .plain (" " ++ op.text ++ " ") ++ (← options.expr right)
  | .nested inner => do return .plain "(" ++ (← options.expr inner) ++ .plain ")"
  | .labelled label value => do return .plain (label.text ++ " => ") ++ (← options.expr value)
  | .call name parameters mode arguments =>
    match Function.ofName? (Sql.nameText name) with
    | some function => options.aggregate function parameters mode arguments
    | none => do
      let parts ← options.exprs arguments
      return .plain (Sql.nameText name ++ parameters ++ "(" ++ mode) ++ .listing parts ++ .plain ")"
  | expr => .ok (.plain expr.render)

def Options.exprs (options : Options) : List Expr → Except Failure (List Part)
  | [] => .ok []
  | expr :: rest => do
    let first ← options.expr expr
    return first :: (← options.exprs rest)

end

/-- A compiled aggregation: its SQL with the values bound in it, and warnings. -/
structure Compiled where
  fragment : Fragment
  warnings : List Diagnostic
deriving Repr, Inhabited

def Compiled.sql (compiled : Compiled) : String :=
  Sql.Fragment.sql compiled.fragment

def Compiled.arguments (compiled : Compiled) : List Value :=
  Sql.Fragment.arguments compiled.fragment

/-- Compiles an aggregation. A text that calls no aggregate function stays as it is; if a call is
a rate, the whole is divided by the interval. -/
def compile (options : Options) (text : String) : Except Failure Compiled :=
  match Sql.read text with
  | .error reason => .error (.unreadable reason)
  | .ok expr => do
    let part ← options.expr expr
    if part.changed then
      let division := if part.rate then [.text ("/" ++ toString options.interval)] else []
      return ⟨part.fragment ++ division, part.warnings⟩
    else return ⟨.ofText text, []⟩

/-- The message about a failure; SQL that cannot be read has no message of its own. -/
def Failure.message? : Failure → Option String
  | unreadable .faulty => none
  | unreadable (.notSingle text) =>
    some ("failed to parse expression: expected a single expression: " ++ text)
  | arity reason => some reason.message
  | filter reason => some reason.message
  | column reason => some reason.message

/-- The message about a failure, with the aggregation it is about. -/
def Failure.report? (failure : Failure) (text : String) : Option String :=
  failure.message?.map fun message =>
    "Failed to rewrite aggregation: " ++ text ++ ": " ++ message

end TelemetryQuery.Aggregate
