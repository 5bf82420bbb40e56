import TelemetryQuery.Text.Place
/- Filter expressions as they are written: alternatives of conjunctions of terms. -/
namespace TelemetryQuery.Filter

/-- A literal as written; quoted text keeps its quotes, and a key may stand for its own text. -/
inductive Literal where
  | quoted (raw : String)
  | number (raw : String)
  | bool (raw : String)
  | key (raw : String)
deriving DecidableEq, Repr, Inhabited

def Literal.raw : Literal → String
  | quoted raw => raw
  | number raw => raw
  | bool raw => raw
  | key raw => raw

/-- A key as written, with its place. -/
structure KeyRef where
  text : String
  place : Text.Place
deriving DecidableEq, Repr, Inhabited

/-- The relations of a key to one value; `!=` and `<>` are kept apart. -/
inductive Relation where
  | equal
  | notEqual
  | unequal
  | less
  | lessEq
  | greater
  | greaterEq
deriving DecidableEq, Repr, Inhabited

def Relation.text : Relation → String
  | equal => "="
  | notEqual => "!="
  | unequal => "<>"
  | less => "<"
  | lessEq => "<="
  | greater => ">"
  | greaterEq => ">="

/-- The tests of a key against a pattern or a part. -/
inductive Matcher where
  | like
  | ilike
  | regexp
  | contains
deriving DecidableEq, Repr, Inhabited

def Matcher.text : Matcher → String
  | like => "LIKE"
  | ilike => "ILIKE"
  | regexp => "REGEXP"
  | contains => "CONTAINS"

/-- The operands of `IN`, with the brackets around them. -/
inductive Operands where
  | paren (values : List Literal)
  | bracket (values : List Literal)
  | single (value : Literal)
deriving DecidableEq, Repr, Inhabited

def Operands.values : Operands → List Literal
  | paren values => values
  | bracket values => values
  | single value => [value]

/-- What a comparison asks of its key. -/
inductive Test where
  | relation (relation : Relation) (value : Literal)
  | pattern (negated : Bool) (matcher : Matcher) (value : Literal)
  | between (negated : Bool) (low high : Literal)
  | among (negated : Bool) (operands : Operands)
  | present (negated : Bool)
deriving DecidableEq, Repr, Inhabited

/-- The functions that may be called in a filter. -/
inductive Function where
  | has
  | hasAny
  | hasAll
  | hasToken
deriving DecidableEq, Repr, Inhabited

def Function.text : Function → String
  | has => "has"
  | hasAny => "hasAny"
  | hasAll => "hasAll"
  | hasToken => "hasToken"

/-- A parameter of a call. -/
inductive Parameter where
  | key (key : KeyRef)
  | value (value : Literal)
  | array (values : List Literal)
deriving DecidableEq, Repr, Inhabited

/-- A term that holds no other terms. -/
inductive Atom where
  | comparison (key : KeyRef) (test : Test)
  | call (function : Function) (parameters : List Parameter)
  /-- A search for a quoted text, kept with its quotes. -/
  | quotedText (raw : String)
  | freeText (text : String)
  /-- A key without an operator, which is a search for its text. -/
  | bareKey (key : KeyRef)
  /-- A number or a boolean without an operator. -/
  | bareValue (value : Literal)
deriving DecidableEq, Repr, Inhabited

/-- A term, negated or not: an atom, or a group of alternatives, each of them a conjunction. -/
inductive Term where
  | atom (negated : Bool) (atom : Atom)
  | group (negated : Bool) (branches : List (List Term))
deriving Repr, Inhabited

/-- Terms that hold together. -/
abbrev Conjunction :=
  List Term

/-- Conjunctions one of which holds. -/
abbrev Disjunction :=
  List Conjunction

/-- A filter; blank text is none. -/
abbrev Query :=
  Option Disjunction

end TelemetryQuery.Filter
