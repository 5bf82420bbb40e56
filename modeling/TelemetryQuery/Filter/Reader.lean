import TelemetryQuery.Filter.Token
/- Readers of tokens, which stop at the first error and never give tokens back. -/
namespace TelemetryQuery.Filter

/-- Where a reader stands: the rules around it, outermost first, and the place of the end. -/
structure Scope where
  rules : List Rule
  ending : Text.Place
deriving DecidableEq, Repr, Inhabited

def Scope.enter (scope : Scope) (rule : Rule) : Scope :=
  { scope with rules := scope.rules ++ [rule] }

def nextKind (tokens : List Token) : Kind :=
  tokens.head?.elim .eof Token.kind

/-- The error of finding the next token where only tokens of some kinds may stand. -/
def Scope.expecting (scope : Scope) (kinds : List Kind) (tokens : List Token) : SyntaxError :=
  { place := tokens.head?.elim scope.ending Token.place
    offending := tokens.head?.map Token.text
    fault := .expecting (Kind.expectedNames kinds) (tokens.head?.elim "EOF" Token.shown)
    rules := scope.rules }

/-- A reader gives a result or the first error, and the tokens that are left in either case. -/
structure Reader (α : Type) where
  run : Scope → List Token → Except SyntaxError α × List Token
  shrinks : ∀ scope tokens, (run scope tokens).2.length ≤ tokens.length

namespace Reader

theorem left_le {α : Type} (reader : Reader α) {scope : Scope} {tokens left : List Token}
    {result : Except SyntaxError α} (h : reader.run scope tokens = (result, left)) :
    left.length ≤ tokens.length := by
  simpa only [h] using reader.shrinks scope tokens

def pure {α : Type} (a : α) : Reader α where
  run _ tokens := (.ok a, tokens)
  shrinks _ _ := Nat.le_refl _

def bind {α β : Type} (first : Reader α) (next : α → Reader β) : Reader β where
  run scope tokens :=
    match first.run scope tokens with
    | (.ok a, rest) => (next a).run scope rest
    | (.error error, rest) => (.error error, rest)
  shrinks scope tokens := by
    split
    · next a rest eq => exact Nat.le_trans ((next a).shrinks scope rest) (first.left_le eq)
    · next error rest eq => exact first.left_le eq

instance : Monad Reader where
  pure := pure
  bind := bind

/-- Fails, naming the kinds that may stand here. -/
def expecting {α : Type} (kinds : List Kind) : Reader α where
  run scope tokens := (.error (scope.expecting kinds tokens), tokens)
  shrinks _ _ := Nat.le_refl _

/-- The kind of the next token, which is not taken. -/
def peek : Reader Kind where
  run _ tokens := (.ok (nextKind tokens), tokens)
  shrinks _ _ := Nat.le_refl _

/-- Takes the next token if a choice accepts it. -/
def take {α : Type} (kinds : List Kind) (choose : Token → Option α) : Reader α where
  run scope tokens :=
    match tokens with
    | [] => (.error (scope.expecting kinds []), [])
    | token :: rest =>
      match choose token with
      | some a => (.ok a, rest)
      | none => (.error (scope.expecting kinds tokens), tokens)
  shrinks scope tokens := by
    cases tokens with
    | nil => simp
    | cons token rest => cases h : choose token <;> simp [h]

def expect (kind : Kind) : Reader Unit :=
  take [kind] fun token => if token.kind = kind then some () else none

def within {α : Type} (rule : Rule) (reader : Reader α) : Reader α where
  run scope tokens := reader.run (scope.enter rule) tokens
  shrinks scope tokens := reader.shrinks (scope.enter rule) tokens

/-- The items that follow a first one, each behind a comma, up to the closing token. -/
def moreItems {α : Type} (item : Reader α) (close : Kind) (scope : Scope) (tokens : List Token) :
    Except SyntaxError (List α) × { rest : List Token // rest.length ≤ tokens.length } :=
  match tokens with
  | [] => (.error (scope.expecting [close, .comma] []), ⟨[], Nat.le_refl _⟩)
  | token :: rest =>
    if token.kind = .comma then
      match h : item.run scope rest with
      | (.ok a, left) =>
        have le : left.length ≤ rest.length := item.left_le h
        let (result, ⟨last, lastLe⟩) := moreItems item close scope left
        (result.map (a :: ·), ⟨last, Nat.le_succ_of_le (Nat.le_trans lastLe le)⟩)
      | (.error error, left) => (.error error, ⟨left, Nat.le_succ_of_le (item.left_le h)⟩)
    else if token.kind = close then (.ok [], ⟨rest, Nat.le_succ rest.length⟩)
    else (.error (scope.expecting [close, .comma] (token :: rest)), ⟨token :: rest, Nat.le_refl _⟩)
termination_by tokens.length
decreasing_by grind

/-- One item or more, with commas between them, and the closing token. -/
def items {α : Type} (item : Reader α) (close : Kind) : Reader (List α) :=
  item.bind fun first =>
    { run := fun scope tokens =>
        let (result, rest) := moreItems item close scope tokens
        (result.map (first :: ·), rest.1)
      shrinks := fun scope tokens => (moreItems item close scope tokens).2.2 }

end Reader

end TelemetryQuery.Filter
