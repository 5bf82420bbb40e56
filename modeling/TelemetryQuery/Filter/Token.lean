import TelemetryQuery.SyntaxError
/- The tokens of filter expressions. -/
namespace TelemetryQuery.Filter

/-- The kinds of tokens; `eof` stands for the end of the text. -/
inductive Kind where
  | lparen
  | rparen
  | lbrack
  | rbrack
  | comma
  | equals
  | notEquals
  | neq
  | lt
  | le
  | gt
  | ge
  | like
  | ilike
  | between
  | exist
  | regexp
  | contains
  | isIn
  | not
  | and
  | or
  | hasToken
  | has
  | hasAny
  | hasAll
  | bool
  | number
  | quotedText
  | key
  | freeText
  | eof
deriving DecidableEq, Repr, Inhabited

namespace Kind

/-- The name of a kind in the grammar. -/
def symbol : Kind → String
  | lparen => "LPAREN"
  | rparen => "RPAREN"
  | lbrack => "LBRACK"
  | rbrack => "RBRACK"
  | comma => "COMMA"
  | equals => "EQUALS"
  | notEquals => "NOT_EQUALS"
  | neq => "NEQ"
  | lt => "LT"
  | le => "LE"
  | gt => "GT"
  | ge => "GE"
  | like => "LIKE"
  | ilike => "ILIKE"
  | between => "BETWEEN"
  | exist => "EXISTS"
  | regexp => "REGEXP"
  | contains => "CONTAINS"
  | isIn => "IN"
  | not => "NOT"
  | and => "AND"
  | or => "OR"
  | hasToken => "HASTOKEN"
  | has => "HAS"
  | hasAny => "HASANY"
  | hasAll => "HASALL"
  | bool => "BOOL"
  | number => "NUMBER"
  | quotedText => "QUOTED_TEXT"
  | key => "KEY"
  | freeText => "FREETEXT"
  | eof => "EOF"

/-- The name of a kind in messages. -/
def friendly : Kind → String
  | lparen => "("
  | rparen => ")"
  | lbrack => "["
  | rbrack => "]"
  | comma => ","
  | equals => "="
  | notEquals => "!="
  | neq => "<>"
  | lt => "<"
  | le => "<="
  | gt => ">"
  | ge => ">="
  | like => "LIKE"
  | ilike => "ILIKE"
  | between => "BETWEEN"
  | exist => "EXISTS"
  | regexp => "REGEXP"
  | contains => "CONTAINS"
  | isIn => "IN"
  | not => "NOT"
  | and => "AND"
  | or => "OR"
  | hasToken => "hasToken"
  | has => "has"
  | hasAny => "hasAny"
  | hasAll => "hasAll"
  | bool => "boolean"
  | number => "number"
  | quotedText => "quoted text"
  | key => "field name (ex: service.name)"
  | freeText => "free text"
  | eof => "EOF"

/-- The kind of a word that the grammar reserves, in any case. -/
def ofKeyword? (word : String) : Option Kind :=
  match Text.lower word with
  | "like" => some like
  | "ilike" => some ilike
  | "between" => some between
  | "exists" => some exist
  | "exist" => some exist
  | "regexp" => some regexp
  | "contains" => some contains
  | "contain" => some contains
  | "in" => some isIn
  | "not" => some not
  | "and" => some and
  | "or" => some or
  | "hastoken" => some hasToken
  | "has" => some has
  | "hasany" => some hasAny
  | "hasall" => some hasAll
  | "true" => some bool
  | "false" => some bool
  | _ => none

def isLiteral (kind : Kind) : Bool :=
  kind == number || kind == bool || kind == quotedText

/-- The names of a set of kinds in messages. A field name is shortened beside literals, and left
out beside other tokens. -/
def expectedNames (kinds : List Kind) : List String :=
  let kinds := Text.distinct kinds
  sortNames (kinds.filterMap fun kind =>
    if kind != key then some kind.friendly
    else if kinds.any isLiteral then some "field name"
    else if 1 < kinds.length then none
    else some kind.friendly)

end Kind

/-- A token with its place and its first and last-plus-one character offsets. -/
structure Token where
  kind : Kind
  text : String
  place : Text.Place
  start : Nat
  stop : Nat
deriving DecidableEq, Repr, Inhabited

/-- A token as messages show it. -/
def Token.shown (token : Token) : String :=
  if token.kind = .eof then "EOF" else "'" ++ token.text ++ "'"

end TelemetryQuery.Filter
