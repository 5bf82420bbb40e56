import TelemetryQuery.Having.Expr
import TelemetryQuery.Having.Lexer
/- Conditions on aggregated results read from text. Reading goes on after an error, so that every
error of a text is found. -/
namespace TelemetryQuery.Having

/-- The error of finding the next token where only tokens of some kinds may stand. -/
def expecting (ending : Text.Place) (kinds : List Kind) (tokens : List Token) : SyntaxError :=
  { place := tokens.head?.elim ending Token.place
    offending := tokens.head?.map Token.text
    fault := .expecting (sortNames (kinds.map Kind.friendly))
      (tokens.head?.elim "EOF" Token.shown)
    rules := [] }

/-- A part read from the front of some tokens, or an error, and what is left of them. -/
structure Step (α : Type) (tokens : List Token) where
  result : Except SyntaxError α
  rest : List Token
  le : rest.length ≤ tokens.length

def arithmeticKinds : List Kind :=
  Arithmetic.all.map .arithmetic

def comparisonKinds : List Kind :=
  Comparison.all.map .comparison

def operandStart : List Kind :=
  [.lparen, .arithmetic .add, .arithmetic .subtract, .identifier, .number, .quotedText]

/-- The sign that a token is, if it is one. -/
def signOf? : Kind → Option Bool
  | .arithmetic .add => some false
  | .arithmetic .subtract => some true
  | _ => none

/-- The operator of sums that a token is. -/
def additive? : Kind → Option Arithmetic
  | .arithmetic .add => some .add
  | .arithmetic .subtract => some .subtract
  | _ => none

/-- The operator of products that a token is. -/
def multiplicative? : Kind → Option Arithmetic
  | .arithmetic .multiply => some .multiply
  | .arithmetic .divide => some .divide
  | .arithmetic .remainder => some .remainder
  | _ => none

mutual

/-- Terms with plus or minus between them. -/
def operand (ending : Text.Place) (tokens : List Token) : Step Operand tokens :=
  match term ending tokens with
  | ⟨.error error, rest, le⟩ => ⟨.error error, rest, le⟩
  | ⟨.ok left, rest, le⟩ =>
    match sums ending left rest with
    | ⟨result, last, lastLe⟩ => ⟨result, last, Nat.le_trans lastLe le⟩
termination_by 6 * tokens.length + 4
decreasing_by all_goals omega

/-- The terms after the first, which are added to or taken from what stands before them. -/
def sums (ending : Text.Place) (left : Operand) (tokens : List Token) : Step Operand tokens :=
  match tokens with
  | [] => ⟨.ok left, [], Nat.le_refl _⟩
  | token :: after =>
    match additive? token.kind with
    | none => ⟨.ok left, token :: after, Nat.le_refl _⟩
    | some op =>
      match term ending after with
      | ⟨.error error, rest, le⟩ => ⟨.error error, rest, Nat.le_succ_of_le le⟩
      | ⟨.ok right, rest, le⟩ =>
        match sums ending (.binary left op right) rest with
        | ⟨result, last, lastLe⟩ => ⟨result, last, Nat.le_succ_of_le (Nat.le_trans lastLe le)⟩
termination_by 6 * tokens.length + 3
decreasing_by all_goals simp only [List.length_cons]; omega

/-- Factors with signs of products between them. -/
def term (ending : Text.Place) (tokens : List Token) : Step Operand tokens :=
  match factor ending tokens with
  | ⟨.error error, rest, le⟩ => ⟨.error error, rest, le⟩
  | ⟨.ok left, rest, le⟩ =>
    match products ending left rest with
    | ⟨result, last, lastLe⟩ => ⟨result, last, Nat.le_trans lastLe le⟩
termination_by 6 * tokens.length + 2
decreasing_by all_goals omega

/-- The factors after the first, with what stands before them on their left. -/
def products (ending : Text.Place) (left : Operand) (tokens : List Token) :
    Step Operand tokens :=
  match tokens with
  | [] => ⟨.ok left, [], Nat.le_refl _⟩
  | token :: after =>
    match multiplicative? token.kind with
    | none => ⟨.ok left, token :: after, Nat.le_refl _⟩
    | some op =>
      match factor ending after with
      | ⟨.error error, rest, le⟩ => ⟨.error error, rest, Nat.le_succ_of_le le⟩
      | ⟨.ok right, rest, le⟩ =>
        match products ending (.binary left op right) rest with
        | ⟨result, last, lastLe⟩ => ⟨result, last, Nat.le_succ_of_le (Nat.le_trans lastLe le)⟩
termination_by 6 * tokens.length + 1
decreasing_by all_goals simp only [List.length_cons]; omega

/-- A signed factor, an operand in brackets, a name, a call, a number or a quoted text. -/
def factor (ending : Text.Place) (tokens : List Token) : Step Operand tokens :=
  match tokens with
  | [] => ⟨.error (expecting ending operandStart []), [], Nat.le_refl _⟩
  | token :: after =>
    match signOf? token.kind with
    | some negative =>
      match factor ending after with
      | ⟨result, rest, le⟩ => ⟨result.map (.signed negative), rest, Nat.le_succ_of_le le⟩
    | none =>
      match token.kind with
      | .lparen =>
        match operand ending after with
        | ⟨.error error, rest, le⟩ => ⟨.error error, rest, Nat.le_succ_of_le le⟩
        | ⟨.ok inner, rest, le⟩ =>
          match rest with
          | [] => ⟨.error (expecting ending [.rparen] []), [], Nat.zero_le _⟩
          | closing :: last =>
            if closing.kind = .rparen then
              ⟨.ok (.paren inner), last, Nat.le_succ_of_le (Nat.le_of_succ_le le)⟩
            else
              ⟨.error (expecting ending [.rparen] (closing :: last)), closing :: last,
                Nat.le_succ_of_le le⟩
      | .identifier =>
        match after with
        | [] => ⟨.ok (.identifier token.text), [], Nat.zero_le _⟩
        | opening :: inside =>
          if opening.kind = .lparen then
            match inside with
            | [] => ⟨.error (expecting ending operandStart []), [], Nat.zero_le _⟩
            | first :: more =>
              if first.kind = .rparen then
                ⟨.ok (.call token.text []), more, Nat.le_add_right more.length 3⟩
              else
                match arguments ending (first :: more) with
                | ⟨result, rest, le⟩ =>
                  ⟨result.map (.call token.text), rest, Nat.le_succ_of_le (Nat.le_succ_of_le le)⟩
          else ⟨.ok (.identifier token.text), opening :: inside, Nat.le_succ _⟩
      | .number => ⟨.ok (.number token.text), after, Nat.le_succ _⟩
      | .quotedText => ⟨.ok (.quoted token.text), after, Nat.le_succ _⟩
      | _ => ⟨.error (expecting ending operandStart (token :: after)), token :: after,
          Nat.le_refl _⟩
termination_by 6 * tokens.length
decreasing_by all_goals simp only [List.length_cons]; omega

/-- The arguments of a call, up to and with the closing bracket. -/
def arguments (ending : Text.Place) (tokens : List Token) : Step (List Operand) tokens :=
  match operand ending tokens with
  | ⟨.error error, rest, le⟩ => ⟨.error error, rest, le⟩
  | ⟨.ok first, rest, le⟩ =>
    match rest with
    | [] =>
      ⟨.error (expecting ending ([.rparen, .comma] ++ arithmeticKinds) []), [], Nat.zero_le _⟩
    | token :: after =>
      if token.kind = .comma then
        match arguments ending after with
        | ⟨result, last, lastLe⟩ =>
          ⟨result.map (first :: ·), last, Nat.le_trans lastLe (Nat.le_of_succ_le le)⟩
      else if token.kind = .rparen then ⟨.ok [first], after, Nat.le_of_succ_le le⟩
      else
        ⟨.error (expecting ending ([.rparen, .comma] ++ arithmeticKinds) (token :: after)),
          token :: after, le⟩
termination_by 6 * tokens.length + 5
decreasing_by all_goals grind

end

/-- Two operands with a comparison between them. -/
def comparison (ending : Text.Place) (tokens : List Token) : Step Expr tokens :=
  match operand ending tokens with
  | ⟨.error error, rest, le⟩ => ⟨.error error, rest, le⟩
  | ⟨.ok left, rest, le⟩ =>
    match rest with
    | [] => ⟨.error (expecting ending (comparisonKinds ++ arithmeticKinds) []), [], Nat.zero_le _⟩
    | token :: after =>
      match token.kind with
      | .comparison op =>
        match operand ending after with
        | ⟨result, last, lastLe⟩ =>
          ⟨result.map (.comparison left op), last, Nat.le_trans lastLe (Nat.le_of_succ_le le)⟩
      | _ =>
        ⟨.error (expecting ending (comparisonKinds ++ arithmeticKinds) (token :: after)),
          token :: after, le⟩

/-- The tokens after the bracket that closes the brackets open so far. -/
def afterClosing (depth : Nat) : List Token → List Token
  | [] => []
  | token :: rest =>
    if token.kind = .lparen then afterClosing (depth + 1) rest
    else if token.kind = .rparen then
      if depth ≤ 1 then rest else afterClosing (depth - 1) rest
    else afterClosing depth rest

/-- Whether an opening bracket starts an operand rather than a condition: a comparison or
arithmetic follows the bracket that closes it. -/
def startsOperand (tokens : List Token) : Bool :=
  match (afterClosing 0 tokens).head?.map Token.kind with
  | some (.comparison _) => true
  | some (.arithmetic _) => true
  | _ => false

/-- Skips to the next connective or closing bracket outside the brackets that are opened on the
way. -/
def resume (depth : Nat) : List Token → List Token
  | [] => []
  | token :: rest =>
    match token.kind with
    | .and => if depth = 0 then token :: rest else resume depth rest
    | .or => if depth = 0 then token :: rest else resume depth rest
    | .rparen => if depth = 0 then token :: rest else resume (depth - 1) rest
    | .lparen => resume (depth + 1) rest
    | _ => resume depth rest

theorem resume_length_le (depth : Nat) (tokens : List Token) :
    (resume depth tokens).length ≤ tokens.length := by
  fun_induction resume depth tokens <;> simp_all <;> omega

/-- A condition read from the front of some tokens, with the errors in it. -/
structure Part (tokens : List Token) where
  expr : Expr
  errors : List SyntaxError
  rest : List Token
  le : rest.length ≤ tokens.length

/-- The parts of a conjunction or a disjunction, with the errors in them. -/
structure Parts (tokens : List Token) where
  exprs : List Expr
  errors : List SyntaxError
  rest : List Token
  le : rest.length ≤ tokens.length

/-- A condition without connectives, or an error; errors inside brackets come beside it. -/
structure Primary (tokens : List Token) where
  result : Except SyntaxError Expr
  errors : List SyntaxError
  rest : List Token
  le : rest.length ≤ tokens.length

/-- What is left of an error: its place among the errors, and the tokens from which reading goes
on. -/
def Primary.settle {tokens : List Token} (part : Primary tokens) : Parts tokens :=
  match part.result with
  | .ok expr => ⟨[expr], part.errors, part.rest, part.le⟩
  | .error error =>
    ⟨[], part.errors ++ [error], resume 0 part.rest,
      Nat.le_trans (resume_length_le 0 part.rest) part.le⟩

/-- One part stays as it is, several are joined. -/
def collapse (join : List Expr → Expr) : List Expr → Expr
  | [expr] => expr
  | exprs => join exprs

mutual

/-- Conjunctions with `OR` between them. -/
def disjunction (ending : Text.Place) (tokens : List Token) : Part tokens :=
  match branches ending tokens with
  | ⟨exprs, errors, rest, le⟩ => ⟨collapse .or exprs, errors, rest, le⟩
termination_by 5 * tokens.length + 3
decreasing_by omega

def branches (ending : Text.Place) (tokens : List Token) : Parts tokens :=
  match conjuncts ending tokens with
  | ⟨exprs, errors, [], _⟩ => ⟨[collapse .and exprs], errors, [], Nat.zero_le _⟩
  | ⟨exprs, errors, token :: after, le⟩ =>
    if token.kind = .or then
      match branches ending after with
      | ⟨more, moreErrors, last, lastLe⟩ =>
        ⟨collapse .and exprs :: more, errors ++ moreErrors, last,
          Nat.le_trans lastLe (Nat.le_of_succ_le le)⟩
    else ⟨[collapse .and exprs], errors, token :: after, le⟩
termination_by 5 * tokens.length + 2
decreasing_by all_goals grind

/-- Conditions with `AND` between them. After an error reading goes on behind the next token that
the conditions around know. -/
def conjuncts (ending : Text.Place) (tokens : List Token) : Parts tokens :=
  match (primary ending tokens).settle with
  | ⟨exprs, errors, [], _⟩ => ⟨exprs, errors, [], Nat.zero_le _⟩
  | ⟨exprs, errors, token :: after, le⟩ =>
    if token.kind = .and then
      match conjuncts ending after with
      | ⟨more, moreErrors, last, lastLe⟩ =>
        ⟨exprs ++ more, errors ++ moreErrors, last,
          Nat.le_trans lastLe (Nat.le_of_succ_le le)⟩
    else ⟨exprs, errors, token :: after, le⟩
termination_by 5 * tokens.length + 1
decreasing_by all_goals grind

/-- A condition in brackets, negated or not, or a comparison. -/
def primary (ending : Text.Place) (tokens : List Token) : Primary tokens :=
  match tokens with
  | [] => ⟨.error (expecting ending (.not :: operandStart) []), [], [], Nat.le_refl _⟩
  | token :: after =>
    if token.kind = .not then
      match after with
      | [] => ⟨.error (expecting ending [.lparen] []), [], [], Nat.zero_le _⟩
      | opening :: inside =>
        if opening.kind = .lparen then
          match bracketed ending .not inside with
          | ⟨result, errors, rest, le⟩ =>
            ⟨result, errors, rest, Nat.le_succ_of_le (Nat.le_succ_of_le le)⟩
        else ⟨.error (expecting ending [.lparen] (opening :: inside)), [], opening :: inside,
          Nat.le_succ _⟩
    else if token.kind = .lparen ∧ !startsOperand (token :: after) then
      match bracketed ending .group after with
      | ⟨result, errors, rest, le⟩ => ⟨result, errors, rest, Nat.le_succ_of_le le⟩
    else if token.kind ∈ operandStart then
      match comparison ending (token :: after) with
      | ⟨result, rest, le⟩ => ⟨result, [], rest, le⟩
    else
      ⟨.error (expecting ending (.not :: operandStart) (token :: after)), [], token :: after,
        Nat.le_refl _⟩
termination_by 5 * tokens.length
decreasing_by all_goals grind

/-- A condition after an opening bracket, with the closing one. -/
def bracketed (ending : Text.Place) (make : Expr → Expr) (tokens : List Token) :
    Primary tokens :=
  match disjunction ending tokens with
  | ⟨_, errors, [], _⟩ => ⟨.error (expecting ending [.rparen] []), errors, [], Nat.zero_le _⟩
  | ⟨expr, errors, closing :: rest, le⟩ =>
    if closing.kind = .rparen then ⟨.ok (make expr), errors, rest, Nat.le_of_succ_le le⟩
    else ⟨.error (expecting ending [.rparen] (closing :: rest)), errors, closing :: rest, le⟩
termination_by 5 * tokens.length + 4
decreasing_by omega

end

/-- The error of tokens that are left after the condition. -/
def trailing? : List Token → List SyntaxError
  | [] => []
  | token :: _ =>
    [⟨token.place, some token.text, .trailing (token.kind == .rparen) token.shown, []⟩]

/-- The condition of a text, none if it is blank, or all the errors in it. -/
def parse (text : String) : Except (List SyntaxError) (Option Expr) :=
  let lexed := lex text
  if lexed.tokens.isEmpty then
    if lexed.errors.isEmpty then .ok none else .error lexed.errors
  else
    let whole := disjunction lexed.ending lexed.tokens
    let errors := lexed.errors ++ whole.errors ++ trailing? whole.rest
    if errors.isEmpty then .ok (some whole.expr) else .error errors

end TelemetryQuery.Having
