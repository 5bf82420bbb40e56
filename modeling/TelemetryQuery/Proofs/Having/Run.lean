import TelemetryQuery.Having.Parser
/- Conditions on results read by a cursor. A run may nest its calls and the turns of its loops as
deep as its fuel allows. It stops short of an answer where it would move the cursor on from the end
of the text, or lower a count of open brackets that is zero. -/
namespace TelemetryQuery.Having

/-- Why a run stops short of an answer. -/
inductive Halt where
  | spent
  | behindEnd
  | belowZero

/-- The tokens from the cursor on, none at the end of the text, and the errors found so far. -/
structure Cursor where
  ahead : List Token
  ending : Text.Place
  errors : List SyntaxError

/-- A rule that moves the cursor and gives a part of the condition or an error of the text. -/
abbrev Run (α : Type) : Type :=
  Cursor → Except Halt (Except SyntaxError α × Cursor)

namespace Run

variable {α β : Type}

instance : Monad Run where
  pure a := fun cursor => .ok (.ok a, cursor)
  bind run next := fun cursor =>
    match run cursor with
    | .error halt => .error halt
    | .ok (.error error, later) => .ok (.error error, later)
    | .ok (.ok a, later) => next a later

def halt (reason : Halt) : Run α :=
  fun _ => .error reason

def ahead : Run (List Token) :=
  fun cursor => .ok (.ok cursor.ahead, cursor)

/-- The kind of the next token, if the cursor is not at the end. -/
def kind : Run (Option Kind) :=
  return (← ahead).head?.map Token.kind

def advance : Run Unit
  | ⟨[], _, _⟩ => .error .behindEnd
  | ⟨_ :: rest, ending, errors⟩ => .ok (.ok (), ⟨rest, ending, errors⟩)

def lower : Nat → Run Nat
  | 0 => halt .belowZero
  | depth + 1 => return depth

def expected (kinds : List Kind) : Run α :=
  fun cursor => .ok (.error (expecting cursor.ending kinds cursor.ahead), cursor)

def expect (wanted : Kind) : Run Unit := do
  if (← kind) = some wanted then advance else expected [wanted]

mutual

def operand : Nat → Run Operand
  | 0 => halt .spent
  | fuel + 1 => do sums fuel (← term fuel)

def sums : Nat → Operand → Run Operand
  | 0, _ => halt .spent
  | fuel + 1, left => do
    match (← kind).bind additive? with
    | none => return left
    | some op =>
      advance
      sums fuel (.binary left op (← term fuel))

def term : Nat → Run Operand
  | 0 => halt .spent
  | fuel + 1 => do products fuel (← factor fuel)

def products : Nat → Operand → Run Operand
  | 0, _ => halt .spent
  | fuel + 1, left => do
    match (← kind).bind multiplicative? with
    | none => return left
    | some op =>
      advance
      products fuel (.binary left op (← factor fuel))

def factor : Nat → Run Operand
  | 0 => halt .spent
  | fuel + 1 => do
    let token :: _ ← ahead | expected operandStart
    match signOf? token.kind, token.kind with
    | some negative, _ =>
      advance
      return .signed negative (← factor fuel)
    | none, .lparen =>
      advance
      let inner ← operand fuel
      expect .rparen
      return .paren inner
    | none, .identifier =>
      advance
      if (← kind) = some .lparen then
        advance
        if (← kind) = some .rparen then
          advance
          return .call token.text []
        else return .call token.text (← arguments fuel)
      else return .identifier token.text
    | none, .number =>
      advance
      return .number token.text
    | none, .quotedText =>
      advance
      return .quoted token.text
    | none, _ => expected operandStart

def arguments : Nat → Run (List Operand)
  | 0 => halt .spent
  | fuel + 1 => do
    let first ← operand fuel
    match ← kind with
    | some .comma =>
      advance
      return first :: (← arguments fuel)
    | some .rparen =>
      advance
      return [first]
    | _ => expected ([.rparen, .comma] ++ arithmeticKinds)

end

def comparison (fuel : Nat) : Run Expr := do
  let left ← operand fuel
  match ← kind with
  | some (.comparison op) =>
    advance
    return .comparison left op (← operand fuel)
  | _ => expected (comparisonKinds ++ arithmeticKinds)

/-- Whether tokens go on with a comparison or arithmetic. -/
def goesOn (tokens : List Token) : Bool :=
  match tokens.head?.map Token.kind with
  | some (.comparison _) => true
  | some (.arithmetic _) => true
  | _ => false

/-- Looks ahead to the bracket that closes the ones open so far, and whether an operand goes on
behind it. -/
def opensOperand : Nat → List Token → Run Bool
  | _, [] => return false
  | depth, token :: rest =>
    match token.kind with
    | .lparen => opensOperand (depth + 1) rest
    | .rparen => do
      let depth ← lower depth
      if depth = 0 then return goesOn rest else opensOperand depth rest
    | _ => opensOperand depth rest

/-- Goes on to a connective or closing bracket outside the brackets that are opened on the way. -/
def synchronize : Nat → Nat → Run Unit
  | 0, _ => halt .spent
  | fuel + 1, depth => do
    match ← kind, depth with
    | none, _ | some .and, 0 | some .or, 0 | some .rparen, 0 => return
    | some .lparen, _ =>
      advance
      synchronize fuel (depth + 1)
    | some .rparen, _ =>
      let depth ← lower depth
      advance
      synchronize fuel depth
    | some _, _ =>
      advance
      synchronize fuel depth

/-- Keeps the error of a condition and goes on behind it. -/
def settle (fuel : Nat) (run : Run Expr) : Run (List Expr) := fun cursor =>
  match run cursor with
  | .error halt => .error halt
  | .ok (.ok expr, later) => .ok (.ok [expr], later)
  | .ok (.error error, later) =>
    (do synchronize fuel 0; return []) { later with errors := later.errors ++ [error] }

mutual

def disjunction : Nat → Run Expr
  | 0 => halt .spent
  | fuel + 1 => return collapse .or (← branches fuel)

def branches : Nat → Run (List Expr)
  | 0 => halt .spent
  | fuel + 1 => do
    let first ← conjuncts fuel
    if (← kind) = some .or then
      advance
      return collapse .and first :: (← branches fuel)
    else return [collapse .and first]

def conjuncts : Nat → Run (List Expr)
  | 0 => halt .spent
  | fuel + 1 => do
    let first ← settle fuel (primary fuel)
    if (← kind) = some .and then
      advance
      return first ++ (← conjuncts fuel)
    else return first

def primary : Nat → Run Expr
  | 0 => halt .spent
  | fuel + 1 => do
    match ← kind with
    | none => expected (.not :: operandStart)
    | some .not =>
      advance
      expect .lparen
      bracketed fuel .not
    | some .lparen =>
      if ← opensOperand 0 (← ahead) then comparison fuel
      else
        advance
        bracketed fuel .group
    | some kind =>
      if kind ∈ operandStart then comparison fuel
      else expected (.not :: operandStart)

def bracketed : Nat → (Expr → Expr) → Run Expr
  | 0, _ => halt .spent
  | fuel + 1, make => do
    let inner ← disjunction fuel
    expect .rparen
    return make inner

end

/-- Cuts a text into tokens, one in each turn or a blank or stray character. A token moves on by its
own length. -/
def tokenize : Nat → Text.Place → List Char → Except Halt Lexed
  | 0, _, _ => .error .spent
  | _ + 1, place, [] => .ok ⟨[], [], place⟩
  | fuel + 1, place, c :: text =>
    if Text.isBlank c then tokenize fuel (place.step c) text
    else match tokenAt? (c :: text) with
      | none => do
        let more ← tokenize fuel (placeAfterStray place c text) text
        let error := ⟨place, some (String.singleton c), .unrecognised c, []⟩
        return { more with errors := error :: more.errors }
      | some (kind, length) => do
        if (c :: text).length < length then throw .behindEnd
        let chars := (c :: text).take length
        let more ← tokenize fuel (place.after chars) ((c :: text).drop length)
        return { more with tokens := ⟨kind, String.ofList chars, place⟩ :: more.tokens }

/-- The answer of a run on a text. -/
def answer (fuel : Nat) (text : String) :
    Except Halt (Except (List SyntaxError) (Option Expr)) :=
  match tokenize fuel .start text.toList with
  | .error halt => .error halt
  | .ok lexed =>
    if lexed.tokens.isEmpty then
      .ok (if lexed.errors.isEmpty then .ok none else .error lexed.errors)
    else
      match disjunction fuel ⟨lexed.tokens, lexed.ending, lexed.errors⟩ with
      | .error halt => .error halt
      | .ok (.error error, last) => .ok (.error (last.errors ++ [error]))
      | .ok (.ok expr, last) =>
        let errors := last.errors ++ trailing? last.ahead
        .ok (if errors.isEmpty then .ok (some expr) else .error errors)

end Run

end TelemetryQuery.Having
