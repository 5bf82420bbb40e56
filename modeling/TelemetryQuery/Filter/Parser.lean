import TelemetryQuery.Filter.Expr
import TelemetryQuery.Filter.Lexer
import TelemetryQuery.Filter.Reader
/- Filter text read into expressions. Reading goes on after an error, so that every error of a
text is found. -/
namespace TelemetryQuery.Filter

def primaryStart : List Kind :=
  [.lparen, .key, .quotedText, .number, .bool, .freeText, .has, .hasAny, .hasAll, .hasToken]

def valueStart : List Kind :=
  [.quotedText, .number, .bool, .key]

def literal? (token : Token) : Option Literal :=
  match token.kind with
  | .quotedText => some (.quoted token.text)
  | .number => some (.number token.text)
  | .bool => some (.bool token.text)
  | .key => some (.key token.text)
  | _ => none

def value : Reader Literal :=
  .within .value (.take valueStart literal?)

def valueList (close : Kind) : Reader (List Literal) :=
  .within .valueList (.items value close)

def keyRef (token : Token) : KeyRef :=
  ⟨token.text, token.place⟩

def key : Reader KeyRef :=
  .take [.key] fun token => if token.kind = .key then some (keyRef token) else none

def inClause : Reader Operands :=
  .within .inClause do
    .expect .isIn
    match ← .peek with
    | .lparen => do
      .expect .lparen
      return .paren (← valueList .rparen)
    | .lbrack => do
      .expect .lbrack
      return .bracket (← valueList .rbrack)
    | kind =>
      if kind ∈ valueStart then return .single (← value)
      else .expecting ([.lparen, .lbrack] ++ valueStart)

def Relation.ofKind? : Kind → Option Relation
  | .equals => some .equal
  | .notEquals => some .notEqual
  | .neq => some .unequal
  | .lt => some .less
  | .le => some .lessEq
  | .gt => some .greater
  | .ge => some .greaterEq
  | _ => none

def Matcher.ofKind? : Kind → Option Matcher
  | .like => some .like
  | .ilike => some .ilike
  | .regexp => some .regexp
  | .contains => some .contains
  | _ => none

/-- The kinds that may follow a negation inside a comparison. -/
def negatable : List Kind :=
  [.like, .ilike, .between, .exist, .regexp, .contains, .isIn]

/-- Whether a key before these tokens is compared with something. -/
def startsTest (tokens : List Token) : Bool :=
  match nextKind tokens with
  | .not => nextKind tokens.tail ∈ negatable
  | kind => (Relation.ofKind? kind).isSome || kind ∈ negatable

/-- The test of a comparison, after its key and a negation. -/
def testAfter (negated : Bool) : Reader Test := do
  let kind ← .peek
  match kind with
  | .between => do
    .expect .between
    let low ← value
    .expect .and
    return .between negated low (← value)
  | .exist => do
    .expect .exist
    return .present negated
  | .isIn => return .among negated (← inClause)
  | _ =>
    match Matcher.ofKind? kind, Relation.ofKind? kind with
    | some matcher, _ => do
      .expect kind
      return .pattern negated matcher (← value)
    | none, some relation =>
      if negated then .expecting negatable
      else do
        .expect kind
        return .relation relation (← value)
    | none, none => .expecting negatable

def test : Reader Test := do
  match ← .peek with
  | .not => do
    .expect .not
    testAfter true
  | _ => testAfter false

def parameter : Reader Parameter :=
  .within .parameter do
    match ← .peek with
    | .key => return .key (← key)
    | .lbrack => do
      .expect .lbrack
      return .array (← valueList .rbrack)
    | kind =>
      if kind ∈ valueStart then return .value (← value)
      else .expecting (.lbrack :: valueStart)

def parameters : Reader (List Parameter) := do
  .expect .lparen
  .items parameter .rparen

def Function.ofKind? : Kind → Option Function
  | .has => some .has
  | .hasAny => some .hasAny
  | .hasAll => some .hasAll
  | .hasToken => some .hasToken
  | _ => none

/-- A key that stands without an operator. -/
abbrev Ambiguity :=
  KeyRef

/-- How the ambiguity was read. -/
def Ambiguity.message (key : Ambiguity) : String :=
  "line " ++ toString key.place.line ++ ":" ++ toString key.place.column ++ " '" ++ key.text ++
    "' has no operator and is read as a search term"

/-- What is remarked while reading: errors that reading goes on after, and ambiguities. -/
structure Remarks where
  errors : List SyntaxError
  ambiguities : List Ambiguity
deriving DecidableEq, Repr, Inhabited

namespace Remarks

def none : Remarks :=
  ⟨[], []⟩

def append (a b : Remarks) : Remarks :=
  ⟨a.errors ++ b.errors, a.ambiguities ++ b.ambiguities⟩

instance : Append Remarks :=
  ⟨append⟩

def ofError (error : SyntaxError) : Remarks :=
  ⟨[error], []⟩

end Remarks

/-- A part of a query read from the front of some tokens. -/
structure Part (α : Type) (tokens : List Token) where
  value : α
  remarks : Remarks
  rest : List Token
  le : rest.length ≤ tokens.length

/-- A term read from the front of some tokens, which takes one at least, or an error. -/
inductive TermPart (tokens : List Token) where
  | read (term : Term) (remarks : Remarks) (rest : List Token) (lt : rest.length < tokens.length)
  | failed (error : SyntaxError) (remarks : Remarks) (rest : List Token)
    (le : rest.length ≤ tokens.length)

/-- Skips to a token that the rules around can go on from. -/
def resume : List Token → List Token
  | [] => []
  | token :: rest =>
    if token.kind = .and || token.kind = .or || token.kind = .rparen then token :: rest
    else resume rest

theorem resume_length_le (tokens : List Token) : (resume tokens).length ≤ tokens.length := by
  induction tokens with
  | nil => simp [resume]
  | cons token rest ih =>
    rw [resume]
    split
    · simp
    · simp only [List.length_cons]
      omega

theorem le_of_resume {tokens after : List Token} {token : Token}
    (h : resume tokens = token :: after) : (token :: after).length ≤ tokens.length :=
  h ▸ resume_length_le tokens

theorem length_lt_cons (token : Token) (after : List Token) :
    after.length < (token :: after).length :=
  Nat.lt_succ_self after.length

/-- Makes an atom of what a reader gives after the first token of a term. -/
def TermPart.ofReader {α : Type} (scope : Scope) (negated : Bool) (make : α → Atom)
    (reader : Reader α) {tokens : List Token} (rest : List Token)
    (lt : rest.length < tokens.length) : TermPart tokens :=
  match h : reader.run scope rest with
  | (.ok a, left) =>
    .read (.atom negated (make a)) .none left (Nat.lt_of_le_of_lt (reader.left_le h) lt)
  | (.error error, left) =>
    .failed error .none left (Nat.le_of_lt (Nat.lt_of_le_of_lt (reader.left_le h) lt))

/-- A term without parts, given its first token. -/
def leaf (scope : Scope) (negated : Bool) (token : Token) (after : List Token) :
    TermPart (token :: after) :=
  let found (atom : Atom) (remarks : Remarks) : TermPart (token :: after) :=
    .read (.atom negated atom) remarks after (length_lt_cons token after)
  match Function.ofKind? token.kind with
  | some function =>
    .ofReader (scope.enter .call) negated (Atom.call function) parameters after
      (length_lt_cons token after)
  | none =>
    match token.kind with
    | .key =>
      if startsTest after then
        .ofReader (scope.enter .comparison) negated (Atom.comparison (keyRef token)) test after
          (length_lt_cons token after)
      else found (.bareKey (keyRef token)) ⟨[], [keyRef token]⟩
    | .quotedText => found (.quotedText token.text) .none
    | .freeText => found (.freeText token.text) .none
    | .number => found (.bareValue (.number token.text)) .none
    | .bool => found (.bareValue (.bool token.text)) .none
    | _ =>
      .failed (scope.expecting primaryStart (token :: after)) .none (token :: after)
        (length_lt_cons token after)

mutual

/-- Conjunctions with `OR` between them. -/
def disjunction (scope : Scope) (tokens : List Token) : Part Disjunction tokens :=
  let scope := scope.enter .disjunction
  match conjunction (scope.enter .conjunction) tokens with
  | ⟨first, remarks, rest, le⟩ =>
    match alternatives scope rest with
    | ⟨more, moreRemarks, last, lastLe⟩ =>
      ⟨first :: more, remarks ++ moreRemarks, last, Nat.le_trans lastLe le⟩
termination_by 5 * tokens.length + 4
decreasing_by all_goals omega

/-- The conjunctions after the first, each behind an `OR`. -/
def alternatives (scope : Scope) (tokens : List Token) : Part Disjunction tokens :=
  match tokens with
  | [] => ⟨[], .none, [], Nat.le_refl _⟩
  | token :: after =>
    if token.kind = .or then
      match conjunction (scope.enter .conjunction) after with
      | ⟨first, remarks, rest, le⟩ =>
        match alternatives scope rest with
        | ⟨more, moreRemarks, last, lastLe⟩ =>
          ⟨first :: more, remarks ++ moreRemarks, last,
            Nat.le_succ_of_le (Nat.le_trans lastLe le)⟩
    else ⟨[], .none, token :: after, Nat.le_refl _⟩
termination_by 5 * tokens.length + 3
decreasing_by all_goals simp only [List.length_cons]; omega

/-- Terms with `AND` or nothing between them. After an error reading goes on behind the next
token that the rules around know. -/
def conjunction (scope : Scope) (tokens : List Token) : Part Conjunction tokens :=
  match term (scope.enter .term) tokens with
  | .read first remarks [] _ => ⟨[first], remarks, [], Nat.zero_le _⟩
  | .read first remarks (token :: after) lt =>
    if token.kind = .and then
      match conjunction scope after with
      | ⟨more, moreRemarks, last, lastLe⟩ =>
        ⟨first :: more, remarks ++ moreRemarks, last,
          Nat.le_trans lastLe (Nat.le_of_lt (Nat.lt_of_succ_lt lt))⟩
    else if token.kind = .not || token.kind ∈ primaryStart then
      match conjunction scope (token :: after) with
      | ⟨more, moreRemarks, last, lastLe⟩ =>
        ⟨first :: more, remarks ++ moreRemarks, last, Nat.le_trans lastLe (Nat.le_of_lt lt)⟩
    else ⟨[first], remarks, token :: after, Nat.le_of_lt lt⟩
  | .failed error remarks rest le =>
    match h : resume rest with
    | [] => ⟨[], remarks ++ .ofError error, [], Nat.zero_le _⟩
    | token :: after =>
      have shorter : after.length < tokens.length := Nat.le_trans (le_of_resume h) le
      if token.kind = .and then
        match conjunction scope after with
        | ⟨more, moreRemarks, last, lastLe⟩ =>
          ⟨more, remarks ++ .ofError error ++ moreRemarks, last,
            Nat.le_trans lastLe (Nat.le_of_lt shorter)⟩
      else ⟨[], remarks ++ .ofError error, token :: after, shorter⟩
termination_by 5 * tokens.length + 2
decreasing_by all_goals grind

/-- A term with a negation or without. -/
def term (scope : Scope) (tokens : List Token) : TermPart tokens :=
  match tokens with
  | [] => .failed ((scope.enter .primary).expecting primaryStart []) .none [] (Nat.le_refl _)
  | token :: after =>
    if token.kind = .not then
      match primary (scope.enter .primary) true after with
      | .read term remarks rest lt => .read term remarks rest (Nat.lt_succ_of_lt lt)
      | .failed error remarks rest le => .failed error remarks rest (Nat.le_succ_of_le le)
    else primary (scope.enter .primary) false (token :: after)
termination_by 5 * tokens.length + 1
decreasing_by all_goals grind

/-- What may stand after a negation: a group, a comparison, a call or a search. -/
def primary (scope : Scope) (negated : Bool) (tokens : List Token) : TermPart tokens :=
  match tokens with
  | [] => .failed (scope.expecting primaryStart []) .none [] (Nat.le_refl _)
  | token :: after =>
    if token.kind = .lparen then
      match disjunction scope after with
      | ⟨_, remarks, [], _⟩ =>
        .failed (scope.expecting [.rparen, .and, .or] []) remarks [] (Nat.zero_le _)
      | ⟨branches, remarks, closing :: rest, le⟩ =>
        if closing.kind = .rparen then
          .read (.group negated branches) remarks rest (Nat.lt_succ_of_lt le)
        else
          .failed (scope.expecting [.rparen, .and, .or] (closing :: rest)) remarks
            (closing :: rest) (Nat.le_succ_of_le le)
    else leaf scope negated token after
termination_by 5 * tokens.length
decreasing_by grind

end

/-- What reading a filter text gives. The query is there also if there are errors. -/
structure Parsed where
  query : Query
  tokens : List Token
  errors : List SyntaxError
  ambiguities : List Ambiguity
deriving Repr, Inhabited

namespace Parsed

/-- Whether an `OR` stands anywhere in the text. -/
def hasOr (parsed : Parsed) : Bool :=
  parsed.tokens.any (·.kind == .or)

end Parsed

/-- The error of tokens that are left after the expression. -/
def trailing? (scope : Scope) : List Token → List SyntaxError
  | [] => []
  | token :: _ =>
    [⟨token.place, some token.text, .trailing (token.kind == .rparen) token.shown, scope.rules⟩]

/-- Reads a filter text and finds all errors in it. -/
def read (text : String) : Parsed :=
  let lexed := lex text
  let scope : Scope := ⟨[.query], lexed.ending.place⟩
  if lexed.tokens.isEmpty then ⟨none, [], lexed.errors, []⟩
  else
    let whole := disjunction scope lexed.tokens
    { query := some whole.value
      tokens := lexed.tokens
      errors := lexed.errors ++ whole.remarks.errors ++ trailing? scope whole.rest
      ambiguities := whole.remarks.ambiguities }

/-- The filter of a text, or the errors in it. -/
def parse (text : String) : Except (List SyntaxError) Query :=
  let parsed := read text
  if parsed.errors.isEmpty then .ok parsed.query else .error parsed.errors

end TelemetryQuery.Filter
