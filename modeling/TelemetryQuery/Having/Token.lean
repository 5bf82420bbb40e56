import TelemetryQuery.SyntaxError
/- The tokens of conditions on aggregated results. -/
namespace TelemetryQuery.Having

/-- Comparisons between two operands; `!=` and `<>` are kept apart. -/
inductive Comparison where
  | equal
  | notEqual
  | unequal
  | less
  | lessEq
  | greater
  | greaterEq
deriving DecidableEq, Repr, Inhabited

def Comparison.text : Comparison → String
  | equal => "="
  | notEqual => "!="
  | unequal => "<>"
  | less => "<"
  | lessEq => "<="
  | greater => ">"
  | greaterEq => ">="

def Comparison.all : List Comparison :=
  [equal, notEqual, unequal, less, lessEq, greater, greaterEq]

/-- Arithmetic between two operands. -/
inductive Arithmetic where
  | add
  | subtract
  | multiply
  | divide
  | remainder
deriving DecidableEq, Repr, Inhabited

def Arithmetic.text : Arithmetic → String
  | add => "+"
  | subtract => "-"
  | multiply => "*"
  | divide => "/"
  | remainder => "%"

def Arithmetic.all : List Arithmetic :=
  [add, subtract, multiply, divide, remainder]

/-- The kinds of tokens; `eof` stands for the end of the text. -/
inductive Kind where
  | lparen
  | rparen
  | comma
  | comparison (op : Comparison)
  | arithmetic (op : Arithmetic)
  | not
  | and
  | or
  | bool
  | number
  | quotedText
  | identifier
  | eof
deriving DecidableEq, Repr, Inhabited

namespace Kind

/-- The name of a kind in messages. -/
def friendly : Kind → String
  | lparen => "("
  | rparen => ")"
  | comma => ","
  | comparison op => op.text
  | arithmetic op => op.text
  | not => "NOT"
  | and => "AND"
  | or => "OR"
  | bool => "boolean"
  | number => "number"
  | quotedText => "quoted text"
  | identifier => "IDENTIFIER"
  | eof => "EOF"

/-- The kind of a word: reserved words in any case, or an identifier. -/
def ofWord (word : String) : Kind :=
  match Text.lower word with
  | "and" => and
  | "or" => or
  | "not" => not
  | "true" => bool
  | "false" => bool
  | _ => identifier

end Kind

/-- A token with its place. -/
structure Token where
  kind : Kind
  text : String
  place : Text.Place
deriving DecidableEq, Repr, Inhabited

/-- A token as messages show it. -/
def Token.shown (token : Token) : String :=
  "'" ++ token.text ++ "'"

end TelemetryQuery.Having
