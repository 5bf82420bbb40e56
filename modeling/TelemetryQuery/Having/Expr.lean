import TelemetryQuery.Having.Token
/- Conditions on aggregated results. -/
namespace TelemetryQuery.Having

/-- A numeric operand: references to results, numbers and arithmetic over them. -/
inductive Operand where
  | binary (left : Operand) (op : Arithmetic) (right : Operand)
  /-- A sign before an operand; it is negative or positive. -/
  | signed (negative : Bool) (operand : Operand)
  | paren (inner : Operand)
  | call (name : String) (arguments : List Operand)
  | identifier (name : String)
  | number (text : String)
  | quoted (raw : String)
deriving Repr, Inhabited

/-- A condition on results. -/
inductive Expr where
  | or (children : List Expr)
  | and (children : List Expr)
  | not (inner : Expr)
  | group (inner : Expr)
  | comparison (left : Operand) (op : Comparison) (right : Operand)
deriving Repr, Inhabited

def signText (negative : Bool) : String :=
  if negative then "-" else "+"

mutual

def Operand.render : Operand → String
  | .binary left op right => left.render ++ " " ++ op.text ++ " " ++ right.render
  | .signed negative operand => signText negative ++ operand.render
  | .paren inner => "(" ++ inner.render ++ ")"
  | .call name arguments => name ++ "(" ++ Text.joinWith ", " (renderOperands arguments) ++ ")"
  | .identifier name => name
  | .number text => text
  | .quoted raw => raw

def renderOperands : List Operand → List String
  | [] => []
  | operand :: rest => operand.render :: renderOperands rest

end

mutual

def Expr.render : Expr → String
  | .or children => Text.joinWith " OR " (renderExprs children)
  | .and children => Text.joinWith " AND " (renderExprs children)
  | .not inner => "NOT (" ++ inner.render ++ ")"
  | .group inner => "(" ++ inner.render ++ ")"
  | .comparison left op right => left.render ++ " " ++ op.text ++ " " ++ right.render

def renderExprs : List Expr → List String
  | [] => []
  | expr :: rest => expr.render :: renderExprs rest

end

/-- A name or a call that a condition refers to. -/
inductive Reference where
  | identifier (name : String)
  /-- A call, with its whole text. -/
  | call (name text : String)
deriving DecidableEq, Repr, Inhabited

def Reference.text : Reference → String
  | identifier name => name
  | call _ text => text

/-- The references of an operand; the arguments of a call belong to the call. -/
def Operand.references : Operand → List Reference
  | binary left _ right => left.references ++ right.references
  | signed _ operand => operand.references
  | paren inner => inner.references
  | call name arguments => [.call name (Operand.call name arguments).render]
  | identifier name => [.identifier name]
  | number _ => []
  | quoted _ => []

mutual

/-- The references of a condition, in the order of their appearance. -/
def Expr.references : Expr → List Reference
  | .or children => exprsReferences children
  | .and children => exprsReferences children
  | .not inner => inner.references
  | .group inner => inner.references
  | .comparison left _ right => left.references ++ right.references

def exprsReferences : List Expr → List Reference
  | [] => []
  | expr :: rest => expr.references ++ exprsReferences rest

end

end TelemetryQuery.Having
