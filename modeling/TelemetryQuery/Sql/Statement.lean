import TelemetryQuery.Sql.Reader
/- Statements that select an expression. -/
namespace TelemetryQuery.Sql

/-- How many expressions may stand inside each other. -/
def depthLimit : Nat :=
  48

def readAny : List Token → Option (Expr × List Token) :=
  readExpr depthLimit 0

/-- Words that are not taken for the name of a selected expression unless `AS` stands before. -/
def aliasStops : List String :=
  ["WITH", "EXPLAIN", "ANALYZE", "SELECT", "WHERE", "GROUP", "SORT", "HAVING", "ORDER", "TOP",
    "LATERAL", "VIEW", "LIMIT", "OFFSET", "FETCH", "UNION", "EXCEPT", "INTERSECT", "MINUS",
    "CLUSTER", "DISTRIBUTE", "RETURNING", "FROM", "INTO", "END"]

/-- Words that are not taken for the name of a table. -/
def tableStops : List String :=
  aliasStops ++ ["PREWHERE", "WINDOW", "QUALIFY", "ON", "JOIN", "INNER", "CROSS", "FULL", "LEFT",
    "RIGHT", "NATURAL", "USING", "GLOBAL", "ANTI", "SEMI", "ASOF", "OUTER", "SET", "FINAL",
    "SETTINGS", "FORMAT", "FOR", "START", "CONNECT", "PIVOT", "UNPIVOT", "SAMPLE"]

/-- Skips a name given to what stands before it. -/
def skipAlias? (stops : List String) (tokens : List Token) : Option (List Token) :=
  match skipKeywords? ["AS"] tokens with
  | some (token :: rest) => (identOf? token).map fun _ => rest
  | some [] => none
  | none =>
    match tokens with
    | token :: rest =>
      match identOf? token, token.keyword? with
      | some _, some keyword => some (if stops.contains keyword then tokens else rest)
      | some _, none => some rest
      | none, _ => some tokens
    | [] => some []

/-- A selected expression, or none for a star. -/
def selectItem? (tokens : List Token) : Option (Option Expr × List Token) := do
  let (expr, rest) ← orStar (readExpr depthLimit) tokens
  match expr with
  | .all _ => return (none, rest)
  | .name [⟨value, none⟩] =>
    if Text.lower value = "from" then none
    else return (some expr, ← skipAlias? aliasStops rest)
  | _ => return (some expr, ← skipAlias? aliasStops rest)

/-- The name of a table after a dot. -/
def skipTableName? : List Token → Option (List Token)
  | .word _ :: .symbol "." :: rest => skipTableName? rest
  | .word _ :: rest => some rest
  | _ => none

def table? (tokens : List Token) : Option (Unit × List Token) := do
  return ((), ← skipAlias? tableStops (← skipTableName? tokens))

/-- An expression that results are ordered by. -/
def orderItem? (tokens : List Token) : Option (Unit × List Token) := do
  let (_, rest) ← readAny tokens
  let rest := match nextKeyword? rest with
    | some "ASC" => rest.tail
    | some "DESC" => rest.tail
    | _ => rest
  let rest := (skipKeywords? ["NULLS", "FIRST"] rest).getD rest
  return ((), (skipKeywords? ["NULLS", "LAST"] rest).getD rest)

/-- Skips a clause that starts with some keywords, if it is there. -/
def skipClause? {α : Type} (keywords : List String)
    (body : List Token → Option (α × List Token)) (tokens : List Token) : Option (List Token) :=
  match skipKeywords? keywords tokens with
  | some rest => (body rest).map (·.2)
  | none => some tokens

/-- Skips what stands between the selected expressions and the end of a selection. -/
def skipSources? (tokens : List Token) : Option (List Token) := do
  let rest ← skipClause? ["FROM"] (listOf table?) tokens
  let rest ← skipClause? ["PREWHERE"] readAny rest
  let rest ← skipClause? ["WHERE"] readAny rest
  let rest ← skipClause? ["GROUP", "BY"] (listOf readAny) rest
  skipClause? ["HAVING"] readAny rest

/-- Skips the order and the limits of results. -/
def skipLimits? (tokens : List Token) : Option (List Token) := do
  let rest ← skipClause? ["ORDER", "BY"] (listOf orderItem?) tokens
  let rest ← skipClause? ["OFFSET"] readAny rest
  let rest ← skipClause? ["LIMIT"] (listOf readAny) rest
  skipClause? ["OFFSET"] readAny rest

/-- The selected expressions of one selection. -/
def selection? (tokens : List Token) : Option (List (Option Expr) × List Token) := do
  let rest ← skipKeywords? ["SELECT"] tokens
  let rest := match nextKeyword? rest with
    | some "DISTINCT" => rest.tail
    | some "ALL" => rest.tail
    | _ => rest
  let (items, rest) ← listOf selectItem? rest
  return (items, ← skipSources? rest)

/-- Skips further selections that are united with the first. Tells whether there are any. -/
def skipUnited? (tokens : List Token) : Option (Bool × List Token) :=
  match nextKeyword? tokens with
  | some keyword =>
    if ["UNION", "EXCEPT", "INTERSECT", "MINUS"].contains keyword then do
      let rest := tokens.tail
      let rest := match nextKeyword? rest with
        | some "DISTINCT" => rest.tail
        | some "ALL" => rest.tail
        | _ => rest
      let (_, rest) ← selection? rest
      if rest.length < tokens.length then
        let (_, rest) ← skipUnited? rest
        return (true, rest)
      else none
    else some (false, tokens)
  | none => some (false, tokens)
termination_by tokens.length

/-- Skips a statement that removes tables. -/
def skipRemoval? (tokens : List Token) : Option (List Token) := do
  let rest ← skipKeywords? ["DROP", "TABLE"] tokens
  let rest := (skipKeywords? ["IF", "EXISTS"] rest).getD rest
  let (_, rest) ← listOf (fun tokens => (skipTableName? tokens).map ((), ·)) rest
  return rest

/-- A statement: the expression that it selects, if it selects one and no more. -/
def statement? (tokens : List Token) : Option (Option Expr × List Token) :=
  match skipRemoval? tokens with
  | some rest => some (none, rest)
  | none => do
    let (items, rest) ← selection? tokens
    let (united, rest) ← skipUnited? rest
    let rest ← skipLimits? rest
    match united, items with
    | false, [item] => return (item, rest)
    | _, _ => return (none, rest)

/-- Statements with semicolons between them. The word `END` ends them. -/
def statements? (tokens : List Token) : Option (List (Option Expr)) :=
  match tokens with
  | [] => some []
  | .symbol ";" :: rest => statements? rest
  | token :: more => do
    let (found, rest) ← statement? (token :: more)
    match rest with
    | [] => return [found]
    | .symbol ";" :: left =>
      if left.length ≤ more.length then return found :: (← statements? left) else none
    | next :: _ => if next.keyword? = some "END" then return [found] else none
termination_by tokens.length

/-- Why a text is not an expression. -/
inductive Unreadable where
  /-- The text is not SQL. -/
  | faulty
  /-- The text is SQL, but not one expression. -/
  | notSingle (text : String)
deriving DecidableEq, Repr, Inhabited

/-- Reads a text as the only thing that a statement selects. -/
def read (text : String) : Except Unreadable Expr :=
  let selected := do
    let tokens ← tokens? false text.toList
    statements? (.word ⟨"SELECT", none⟩ :: tokens)
  match selected with
  | some [some expr] => .ok expr
  | some _ => .error (.notSingle text)
  | none => .error .faulty

end TelemetryQuery.Sql
