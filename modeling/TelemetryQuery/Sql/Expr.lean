import TelemetryQuery.Sql.Token
/- SQL expressions, as far as calls and names in them matter. -/
namespace TelemetryQuery.Sql

inductive UnaryOp where
  | plus
  | minus
  | not
deriving DecidableEq, Repr, Inhabited

/-- An operator as it stands before its operand. -/
def UnaryOp.text : UnaryOp → String
  | plus => "+"
  | minus => "-"
  | not => "NOT "

inductive BinaryOp where
  | or
  | and
  | xor
  | equal
  | unequal
  | less
  | lessEq
  | greater
  | greaterEq
  | nullSafeEqual
  | bitOr
  | bitXor
  | bitAnd
  | plus
  | minus
  | times
  | divide
  | modulo
  | integerDivide
  | concat
  | arrow
  | longArrow
deriving DecidableEq, Repr, Inhabited

namespace BinaryOp

def text : BinaryOp → String
  | or => "OR"
  | and => "AND"
  | xor => "XOR"
  | equal => "="
  | unequal => "<>"
  | less => "<"
  | lessEq => "<="
  | greater => ">"
  | greaterEq => ">="
  | nullSafeEqual => "<=>"
  | bitOr => "|"
  | bitXor => "^"
  | bitAnd => "&"
  | plus => "+"
  | minus => "-"
  | times => "*"
  | divide => "/"
  | modulo => "%"
  | integerDivide => "DIV"
  | concat => "||"
  | arrow => "->"
  | longArrow => "->>"

/-- How strongly an operator binds. -/
def precedence : BinaryOp → Nat
  | or => 5
  | and => 10
  | xor => 24
  | arrow | longArrow => 16
  | equal | unequal | less | lessEq | greater | greaterEq | nullSafeEqual => 20
  | bitOr => 21
  | bitXor => 22
  | bitAnd => 23
  | plus | minus => 30
  | times | divide | modulo | integerDivide | concat => 40

/-- Whether an operator compares two values, and may compare one with each of several. -/
def isComparison : BinaryOp → Bool
  | equal | unequal | less | lessEq | greater | greaterEq => true
  | _ => false

/-- The operator of a symbol; some have two spellings. -/
def ofSymbol? : String → Option BinaryOp
  | "=" => some equal
  | "==" => some equal
  | "!=" => some unequal
  | "<>" => some unequal
  | "<" => some less
  | "<=" => some lessEq
  | ">" => some greater
  | ">=" => some greaterEq
  | "<=>" => some nullSafeEqual
  | "|" => some bitOr
  | "^" => some bitXor
  | "&" => some bitAnd
  | "+" => some plus
  | "-" => some minus
  | "*" => some times
  | "/" => some divide
  | "%" => some modulo
  | "||" => some concat
  | "->" => some arrow
  | "->>" => some longArrow
  | _ => none

/-- The operator of a keyword in capitals. -/
def ofKeyword? : String → Option BinaryOp
  | "OR" => some or
  | "AND" => some and
  | "XOR" => some xor
  | "DIV" => some integerDivide
  | _ => none

end BinaryOp

/-- An expression. Whatever else there is in SQL is a phrase, in which no calls are looked for. -/
inductive Expr where
  | name (parts : List Ident)
  | number (digits : String)
  | text (value : String)
  | phrase (words : String)
  /-- All columns, or all of a table; only as an argument. -/
  | all (parts : List Ident)
  | unary (op : UnaryOp) (operand : Expr)
  | binary (left : Expr) (op : BinaryOp) (right : Expr)
  | nested (inner : Expr)
  /-- An argument with its name; only as an argument. -/
  | labelled (label : Ident) (value : Expr)
  /-- A call. What stands between the name and the arguments is kept as it is shown: the
  parameters of a function that takes two lists, and whether arguments are distinct. -/
  | call (function : List Ident) (parameters : String) (mode : String) (arguments : List Expr)
deriving Repr, Inhabited

namespace Expr

mutual

/-- An expression as it is shown: with single blanks around operators. -/
def render : Expr → String
  | .name parts => nameText parts
  | .number digits => digits
  | .text value => quoteText '\'' value
  | .phrase words => words
  | .all parts => String.join (parts.map fun part => part.text ++ ".") ++ "*"
  | .unary op operand => op.text ++ operand.render
  | .binary left op right => left.render ++ " " ++ op.text ++ " " ++ right.render
  | .nested inner => "(" ++ inner.render ++ ")"
  | .labelled label value => label.text ++ " => " ++ value.render
  | .call function parameters mode arguments =>
    nameText function ++ parameters ++ "(" ++ mode ++
      Text.joinWith ", " (renderAll arguments) ++ ")"

def renderAll : List Expr → List String
  | [] => []
  | expr :: rest => expr.render :: renderAll rest

end

/-- Expressions with commas between them. -/
def listing (exprs : List Expr) : String :=
  Text.joinWith ", " (renderAll exprs)

end Expr

end TelemetryQuery.Sql
