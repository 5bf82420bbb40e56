import TelemetryQuery.Sql.Expr
/- Reading SQL expressions. -/
namespace TelemetryQuery.Sql

/-- Reads an expression whose operators bind more strongly than a level. -/
abbrev Operand :=
  Nat → List Token → Option (Expr × List Token)

/-- The next token as a keyword in capitals. -/
def nextKeyword? (tokens : List Token) : Option String :=
  tokens.head?.bind Token.keyword?

def skipSymbol? (symbol : String) : List Token → Option (List Token)
  | .symbol text :: rest => if text = symbol then some rest else none
  | _ => none

def skipKeywords? : List String → List Token → Option (List Token)
  | [], tokens => some tokens
  | keyword :: more, tokens =>
    if nextKeyword? tokens = some keyword then skipKeywords? more tokens.tail else none

/-- Items with commas between them, at least one. -/
def listOf {α : Type} (item : List Token → Option (α × List Token)) (tokens : List Token) :
    Option (List α × List Token) := do
  let (first, rest) ← item tokens
  match skipSymbol? "," rest with
  | none => return ([first], rest)
  | some more =>
    if more.length < tokens.length then
      let (others, rest) ← listOf item more
      return (first :: others, rest)
    else none
termination_by tokens.length

section

variable (operand : Operand)

def expression (tokens : List Token) : Option (Expr × List Token) :=
  operand 0 tokens

/-- Expressions in brackets, after the opening one. -/
def closedList (closing : String) (tokens : List Token) : Option (List Expr × List Token) := do
  let (items, rest) ← listOf (expression operand) tokens
  return (items, ← skipSymbol? closing rest)

/-- The name that a token may be where only a name can stand. -/
def identOf? : Token → Option Ident
  | .word ident => some ident
  | .text value => some ⟨value, some '\''⟩
  | _ => none

/-- The table of `table.*`, or nothing for another expression. A dot has to be followed by a name
or by a star. -/
def starOf : List Ident → List Token → Option (Option (List Ident × List Token))
  | parts, .symbol "." :: token :: rest =>
    if token = .symbol "*" then some (some (parts, rest))
    else (identOf? token).bind fun ident => starOf (parts ++ [ident]) rest
  | _, [.symbol "."] => none
  | _, _ => some none

/-- An expression, or a star for all columns. -/
def orStar (tokens : List Token) : Option (Expr × List Token) :=
  match tokens with
  | .symbol "*" :: rest => some (.all [], rest)
  | token :: rest =>
    match identOf? token with
    | some ident => do
      match ← starOf [ident] rest with
      | some (parts, rest) => return (.all parts, rest)
      | none => expression operand tokens
    | none => expression operand tokens
  | [] => none

/-- An argument of a call, with its name if it has one. -/
def argument (tokens : List Token) : Option (Expr × List Token) :=
  match tokens with
  | token :: .symbol "=>" :: rest => do
    let label ← identOf? token
    let (value, rest) ← orStar operand rest
    return (.labelled label value, rest)
  | _ => orStar operand tokens

/-- The arguments of a call after the opening bracket, with what stands before them. -/
def arguments (tokens : List Token) : Option (String × List Expr × List Token) :=
  match skipSymbol? ")" tokens with
  | some rest => some ("", [], rest)
  | none => do
    let (mode, rest) := match nextKeyword? tokens with
      | some "DISTINCT" => ("DISTINCT ", tokens.tail)
      | some "ALL" => ("ALL ", tokens.tail)
      | _ => ("", tokens)
    let (items, rest) ← listOf (argument operand) rest
    return (mode, items, ← skipSymbol? ")" rest)

/-- A call after the name and the opening bracket. A second list in brackets makes the first one
the parameters of the function. -/
def call (name : List Ident) (tokens : List Token) : Option (Expr × List Token) := do
  let (mode, items, rest) ← arguments operand tokens
  match skipSymbol? "(" rest with
  | none => return (.call name "" mode items, rest)
  | some rest =>
    let parameters := "(" ++ mode ++ Expr.listing items ++ ")"
    let (mode, items, rest) ← arguments operand rest
    return (.call name parameters mode items, rest)

/-- The branches of a case distinction, after the first `WHEN`. -/
def branches (tokens : List Token) : Option (String × List Token) := do
  let (condition, rest) ← expression operand tokens
  let (result, rest) ← expression operand (← skipKeywords? ["THEN"] rest)
  let branch := " WHEN " ++ condition.render ++ " THEN " ++ result.render
  match skipKeywords? ["WHEN"] rest with
  | none => return (branch, rest)
  | some more =>
    if more.length < tokens.length then
      let (others, rest) ← branches more
      return (branch ++ others, rest)
    else none
termination_by tokens.length

/-- What a case distinction is about, if it is named before the first `WHEN`. -/
def caseSubject (tokens : List Token) : Option (String × List Token) :=
  match skipKeywords? ["WHEN"] tokens with
  | some rest => some ("", rest)
  | none => do
    let (subject, rest) ← expression operand tokens
    return (" " ++ subject.render, ← skipKeywords? ["WHEN"] rest)

/-- The value of a case distinction when no branch applies. -/
def caseElse (tokens : List Token) : Option (String × List Token) :=
  match skipKeywords? ["ELSE"] tokens with
  | none => some ("", tokens)
  | some rest => (expression operand rest).map fun (result, rest) =>
    (" ELSE " ++ result.render, rest)

/-- A case distinction after `CASE`. -/
def caseExpr (tokens : List Token) : Option (Expr × List Token) := do
  let (subject, rest) ← caseSubject operand tokens
  let (listed, rest) ← branches operand rest
  let (otherwise, rest) ← caseElse operand rest
  return (.phrase ("CASE" ++ subject ++ listed ++ otherwise ++ " END"),
    ← skipKeywords? ["END"] rest)

/-- A call that rounds, after the name: of a value, perhaps with a number of digits. -/
def rounding (name : String) (tokens : List Token) : Option (Expr × List Token) := do
  let (value, rest) ← expression operand (← skipSymbol? "(" tokens)
  match rest with
  | .symbol "," :: .number scale :: rest =>
    return (.phrase (name ++ "(" ++ value.render ++ ", " ++ scale ++ ")"), ← skipSymbol? ")" rest)
  | _ => return (.phrase (name ++ "(" ++ value.render ++ ")"), ← skipSymbol? ")" rest)

/-- A part of `SUBSTRING` after a keyword or a comma. -/
def slicePart (keyword : String) (tokens : List Token) :
    Option (String × List Token) :=
  match skipKeywords? [keyword] tokens with
  | some rest => do
    let (value, rest) ← expression operand rest
    return (" " ++ keyword ++ " " ++ value.render, rest)
  | none =>
    match skipSymbol? "," tokens with
    | some rest => do
      let (value, rest) ← expression operand rest
      return (", " ++ value.render, rest)
    | none => some ("", tokens)

/-- A part of a text, after the name of the function. -/
def slice (name : String) (tokens : List Token) : Option (Expr × List Token) := do
  let (value, rest) ← expression operand (← skipSymbol? "(" tokens)
  let (start, rest) ← slicePart operand "FROM" rest
  let (length, rest) ← slicePart operand "FOR" rest
  return (.phrase (name ++ "(" ++ value.render ++ start ++ length ++ ")"), ← skipSymbol? ")" rest)

/-- A text without what stands at its ends, after `TRIM`. -/
def trimmed (tokens : List Token) : Option (Expr × List Token) := do
  let rest ← skipSymbol? "(" tokens
  let (side, rest) := match nextKeyword? rest with
    | some "BOTH" => ("BOTH ", rest.tail)
    | some "LEADING" => ("LEADING ", rest.tail)
    | some "TRAILING" => ("TRAILING ", rest.tail)
    | _ => ("", rest)
  let (value, rest) ← expression operand rest
  match skipKeywords? ["FROM"] rest with
  | some rest =>
    let (subject, rest) ← expression operand rest
    return (.phrase ("TRIM(" ++ side ++ value.render ++ " FROM " ++ subject.render ++ ")"),
      ← skipSymbol? ")" rest)
  | none =>
    return (.phrase ("TRIM(" ++ side ++ value.render ++ ")"), ← skipSymbol? ")" rest)

/-- Types whose names are shown in capitals. -/
def capitalTypes : List String :=
  ["STRING", "BOOL", "BOOLEAN", "DATE", "DATETIME", "TIMESTAMP", "INT", "INTEGER", "BIGINT",
    "SMALLINT", "TINYINT", "TEXT", "DOUBLE", "FLOAT", "REAL", "DECIMAL", "NUMERIC", "VARCHAR",
    "CHAR", "UUID", "JSON"]

/-- Types whose names are shown in letters of both cases. -/
def mixedTypes : List String :=
  ["Int8", "Int16", "Int32", "Int64", "Int128", "Int256", "UInt8", "UInt16", "UInt32", "UInt64",
    "UInt128", "UInt256", "Float32", "Float64", "Date32"]

/-- The name of a type as it is shown. -/
def typeText (name : String) : String :=
  if capitalTypes.contains (Text.upper name) then Text.upper name
  else (mixedTypes.find? (Text.sameIgnoringCase name)).getD name

def cast (tokens : List Token) : Option (Expr × List Token) := do
  let (value, rest) ← expression operand (← skipSymbol? "(" tokens)
  match ← skipKeywords? ["AS"] rest with
  | .word type :: rest =>
    return (.phrase ("CAST(" ++ value.render ++ " AS " ++ typeText type.text ++ ")"),
      ← skipSymbol? ")" rest)
  | _ => none

/-- An expression that a keyword introduces, after the keyword; none if the word is only a
name, and `some none` if the keyword is not followed by what it asks for. -/
def keywordExpr (keyword : String) (tokens : List Token) :
    Option (Option (Expr × List Token)) :=
  match keyword with
  | "TRUE" => some (some (.phrase "true", tokens))
  | "FALSE" => some (some (.phrase "false", tokens))
  | "NULL" => some (some (.phrase "NULL", tokens))
  | "NOT" =>
    some <|
      if nextKeyword? tokens = some "EXISTS" then none
      else (operand 15 tokens).map fun (inner, rest) => (.unary .not inner, rest)
  | "CASE" => some (caseExpr operand tokens)
  | "CEIL" => some (rounding operand "CEIL" tokens)
  | "FLOOR" => some (rounding operand "FLOOR" tokens)
  | "SUBSTRING" => some (slice operand "SUBSTRING" tokens)
  | "SUBSTR" => some (slice operand "SUBSTR" tokens)
  | "TRIM" => some (trimmed operand tokens)
  | "CAST" => some (cast operand tokens)
  | "EXISTS" => some none
  | "INTERVAL" => some none
  | _ => none

/-- Keywords that are never names. -/
def reservedWords : List String :=
  ["EXISTS", "INTERVAL", "TRIM"]

/-- Words that are calls even without brackets after them. -/
def timeWords : List String :=
  ["CURRENT_TIMESTAMP", "CURRENT_TIME", "CURRENT_DATE", "LOCALTIME", "LOCALTIMESTAMP"]

/-- A word that is a name: of a called function, of a parameter of a function, or of a column. -/
def named (ident : Ident) (tokens : List Token) : Option (Expr × List Token) :=
  match tokens with
  | .symbol "(" :: rest => call operand [ident] rest
  | .symbol "->" :: rest => do
    let (body, rest) ← expression operand rest
    return (.phrase (ident.text ++ " -> " ++ body.render), rest)
  | _ =>
    if (Token.word ident).keyword?.any timeWords.contains then some (.phrase ident.text, tokens)
    else some (.name [ident], tokens)

/-- An expression that starts with a word. A keyword that introduces nothing is a name. -/
def wordExpr (ident : Ident) (tokens : List Token) : Option (Expr × List Token) :=
  match (Token.word ident).keyword? with
  | none => named operand ident tokens
  | some keyword =>
    match keywordExpr operand keyword tokens with
    | none => named operand ident tokens
    | some (some result) => some result
    | some none => if reservedWords.contains keyword then none else named operand ident tokens

/-- A function of several parameters, after its opening bracket. -/
def lambda? (tokens : List Token) : Option (Expr × List Token) := do
  let ident (tokens : List Token) : Option (Ident × List Token) := do
    return (← tokens.head?.bind identOf?, tokens.tail)
  let (parameters, rest) ← listOf ident tokens
  let (body, rest) ← expression operand (← skipSymbol? "->" (← skipSymbol? ")" rest))
  let names := Text.joinWith ", " (parameters.map Ident.text)
  return (.phrase ("(" ++ names ++ ") -> " ++ body.render), rest)

/-- An expression in round brackets, after the opening one: one expression, or a tuple. -/
def bracketed (tokens : List Token) : Option (Expr × List Token) :=
  if nextKeyword? tokens = some "SELECT" || nextKeyword? tokens = some "WITH" then none
  else
    match lambda? operand tokens with
    | some result => some result
    | none => do
      let (items, rest) ← closedList operand ")" tokens
      match items with
      | [inner] => return (.nested inner, rest)
      | items => return (.phrase ("(" ++ Expr.listing items ++ ")"), rest)

/-- An expression without operators around it. -/
def primary (tokens : List Token) : Option (Expr × List Token) :=
  match tokens with
  | .word ident :: rest => wordExpr operand ident rest
  | .number text :: rest => some (.number text, rest)
  | .text value :: rest => some (.text value, rest)
  | .written text :: rest => some (.phrase text, rest)
  | .symbol "-" :: rest => (operand 40 rest).map fun (inner, rest) => (.unary .minus inner, rest)
  | .symbol "+" :: rest => (operand 40 rest).map fun (inner, rest) => (.unary .plus inner, rest)
  | .symbol "(" :: rest => bracketed operand rest
  | .symbol "[" :: .symbol "]" :: rest => some (.phrase "[]", rest)
  | .symbol "[" :: rest => do
    let (items, rest) ← closedList operand "]" rest
    return (.phrase ("[" ++ Expr.listing items ++ "]"), rest)
  | _ => none

/-- An expression and what is taken from it: `a.b` is a name of two parts, `a.f(x)` a call of a
function with such a name. -/
def accessPart (root part : Expr) : Expr :=
  match root, part with
  | .name parts, .name more => .name (parts ++ more)
  | .name parts, .call name parameters mode arguments =>
    .call (parts ++ name) parameters mode arguments
  | _, _ => .phrase (root.render ++ "." ++ part.render)

/-- What is named after a dot. -/
def afterDot (tokens : List Token) : Option (Expr × List Token) :=
  match tokens with
  | .text value :: rest => some (.name [⟨value, some '\''⟩], rest)
  | _ => operand 100 tokens

/-- What is taken from an expression by dots and square brackets. -/
def accesses (root : Expr) (tokens : List Token) : Option (Expr × List Token) :=
  match tokens with
  | .symbol "." :: rest =>
    if rest.head? = some (.symbol "*") then some (root, tokens)
    else do
      let (part, left) ← afterDot operand rest
      if left.length ≤ rest.length then accesses (accessPart root part) left else none
  | .symbol "[" :: rest => do
    let (index, left) ← expression operand rest
    let left ← skipSymbol? "]" left
    if left.length ≤ rest.length then
      accesses (.phrase (root.render ++ "[" ++ index.render ++ "]")) left
    else none
  | _ => some (root, tokens)
termination_by tokens.length

/-- Keywords that stand between two expressions, with how strongly they bind. -/
def keywordPrecedence (keyword : String) (next : Option String) : Nat :=
  match keyword with
  | "IS" => 17
  | "IN" => 20
  | "BETWEEN" => 20
  | "LIKE" => 19
  | "ILIKE" => 19
  | "RLIKE" => 19
  | "REGEXP" => 19
  | "MATCH" => 19
  | "SIMILAR" => 19
  | "MEMBER" => 19
  | "OVERLAPS" => 20
  | "OPERATOR" => 20
  | "NOT" =>
    match next with
    | some "IN" => 20
    | some "BETWEEN" => 20
    | some "LIKE" => 19
    | some "ILIKE" => 19
    | some "RLIKE" => 19
    | some "REGEXP" => 19
    | some "MATCH" => 19
    | some "SIMILAR" => 19
    | some "MEMBER" => 19
    | some "NULL" => 17
    | _ => 0
  | keyword => (BinaryOp.ofKeyword? keyword).elim 0 BinaryOp.precedence

/-- How strongly the next token binds what stands before it; zero if it does not. -/
def nextPrecedence (tokens : List Token) : Nat :=
  match tokens with
  | .symbol "::" :: _ => 50
  | .symbol symbol :: _ => (BinaryOp.ofSymbol? symbol).elim 0 BinaryOp.precedence
  | token :: rest =>
    token.keyword?.elim 0 fun keyword => keywordPrecedence keyword (nextKeyword? rest)
  | [] => 0

/-- The right side of a binary operator. A comparison may be with any or all of a value. -/
def rightSide (left : Expr) (op : BinaryOp) (tokens : List Token) : Option (Expr × List Token) :=
  match nextKeyword? tokens with
  | some quantifier =>
    if ["ANY", "ALL", "SOME"].contains quantifier then do
      let (right, rest) ← operand op.precedence (← skipSymbol? "(" tokens.tail)
      let rest ← skipSymbol? ")" rest
      if op.isComparison then
        return (.phrase (left.render ++ " " ++ op.text ++ " " ++ quantifier ++ "(" ++
          right.render ++ ")"), rest)
      else none
    else (operand op.precedence tokens).map fun (right, rest) => (.binary left op right, rest)
  | none => (operand op.precedence tokens).map fun (right, rest) => (.binary left op right, rest)

/-- What is said of an expression after `IS`. -/
def property (left : Expr) (tokens : List Token) : Option (Expr × List Token) :=
  let (negation, rest) := match skipKeywords? ["NOT"] tokens with
    | some rest => ("NOT ", rest)
    | none => ("", tokens)
  match nextKeyword? rest with
  | some "DISTINCT" => do
    let (right, rest) ← expression operand (← skipKeywords? ["DISTINCT", "FROM"] rest)
    return (.phrase (left.render ++ " IS " ++ negation ++ "DISTINCT FROM " ++ right.render), rest)
  | some keyword =>
    if ["NULL", "TRUE", "FALSE", "UNKNOWN"].contains keyword then
      some (.phrase (left.render ++ " IS " ++ negation ++ keyword), rest.tail)
    else none
  | none => none

/-- The escape character of a pattern. -/
def escapePart (tokens : List Token) : Option (String × List Token) :=
  match skipKeywords? ["ESCAPE"] tokens with
  | none => some ("", tokens)
  | some (.text value :: rest) => some (" ESCAPE " ++ quoteText '\'' value, rest)
  | some (.number value :: rest) => some (" ESCAPE " ++ value, rest)
  | some _ => none

/-- A test that starts with a keyword, negated or not. -/
def keywordTest (left : Expr) (negated : Bool) (keyword : String) (tokens : List Token) :
    Option (Expr × List Token) :=
  let head := left.render ++ (if negated then " NOT " else " ") ++ keyword ++ " "
  match keyword with
  | "IN" => do
    let (items, rest) ← closedList operand ")" (← skipSymbol? "(" tokens)
    return (.phrase (head ++ "(" ++ Expr.listing items ++ ")"), rest)
  | "BETWEEN" => do
    let (low, rest) ← operand 20 tokens
    let (high, rest) ← operand 20 (← skipKeywords? ["AND"] rest)
    return (.phrase (head ++ low.render ++ " AND " ++ high.render), rest)
  | "LIKE" => do
    let (pattern, rest) ← operand 19 tokens
    let (escape, rest) ← escapePart rest
    return (.phrase (head ++ pattern.render ++ escape), rest)
  | "ILIKE" => do
    let (pattern, rest) ← operand 19 tokens
    let (escape, rest) ← escapePart rest
    return (.phrase (head ++ pattern.render ++ escape), rest)
  | "REGEXP" => (operand 19 tokens).map fun (e, rest) => (.phrase (head ++ e.render), rest)
  | "RLIKE" => (operand 19 tokens).map fun (e, rest) => (.phrase (head ++ e.render), rest)
  | "NULL" => if negated then some (.phrase (left.render ++ " IS NOT NULL"), tokens) else none
  | _ => none

/-- One operator after an expression, with what follows it. -/
def operation (left : Expr) (tokens : List Token) : Option (Expr × List Token) :=
  match tokens with
  | .symbol "::" :: .word type :: rest =>
    some (.phrase (left.render ++ "::" ++ typeText type.text), rest)
  | .symbol symbol :: rest => do rightSide operand left (← BinaryOp.ofSymbol? symbol) rest
  | token :: rest => do
    let keyword ← token.keyword?
    match BinaryOp.ofKeyword? keyword with
    | some op => rightSide operand left op rest
    | none =>
      match keyword with
      | "IS" => property operand left rest
      | "NOT" => do keywordTest operand left true (← nextKeyword? rest) rest.tail
      | _ => keywordTest operand left false keyword rest
  | [] => none

/-- Operators after an expression, as long as they bind more strongly than a level. -/
def operations (level : Nat) (left : Expr) (tokens : List Token) : Option (Expr × List Token) :=
  if nextPrecedence tokens ≤ level then some (left, tokens)
  else do
    let (left, rest) ← operation operand left tokens
    if rest.length < tokens.length then operations level left rest else none
termination_by tokens.length

end

/-- Reads an expression with at most `depth` expressions inside each other. -/
def readExpr : Nat → Operand
  | 0, _, _ => none
  | depth + 1, level, tokens => do
    let (root, rest) ← primary (readExpr depth) tokens
    let (left, rest) ← accesses (readExpr depth) root rest
    operations (readExpr depth) level left rest

end TelemetryQuery.Sql
