import TelemetryQuery.Proofs.Having.Parser
/- The words of a condition on results are read as it, whatever may follow each part. -/
namespace TelemetryQuery.Having

variable {expr : Expr} {exprs : List Expr} {after used : List Token} {words : List Word}
  {phrase : Phrase} {closing opening : Token}

/-- What a step gives and what it leaves. -/
def Step.out {α : Type} {tokens : List Token} (step : Step α tokens) :
    Except SyntaxError α × List Token :=
  (step.result, step.rest)

theorem Step.eq_of_out {α : Type} {tokens rest : List Token} {step : Step α tokens}
    {result : Except SyntaxError α} (out : step.out = (result, rest)) :
    ∃ le, step = ⟨result, rest, le⟩ := by
  cases step with
  | mk result rest le =>
    cases out
    exact ⟨le, rfl⟩

/-- Tokens that do not start with one of some kinds. -/
def Avoids (kinds : Kind → Bool) (rest : List Token) : Prop :=
  ∀ token ∈ rest.head?, kinds token.kind = false

theorem avoids_cons {kinds : Kind → Bool} {token : Token} {rest : List Token} :
    Avoids kinds (token :: rest) ↔ kinds token.kind = false := by
  simp [Avoids]

def Kind.isOpening (kind : Kind) : Bool :=
  kind == .lparen

def Kind.isProduct (kind : Kind) : Bool :=
  (multiplicative? kind).isSome

def Kind.isSum (kind : Kind) : Bool :=
  (additive? kind).isSome

section Steps

variable {ending : Text.Place} {tokens rest : List Token} {left right : Operand}

theorem sums_done (avoids : Avoids Kind.isSum rest) :
    (sums ending left rest).out = (.ok left, rest) := by
  cases rest with
  | nil =>
    rw [sums]
    rfl
  | cons token after =>
    have none : additive? token.kind = none := by
      simpa [Kind.isSum] using avoids_cons.1 avoids
    rw [sums]
    simp only [none]
    rfl

theorem products_done (avoids : Avoids Kind.isProduct rest) :
    (products ending left rest).out = (.ok left, rest) := by
  cases rest with
  | nil =>
    rw [products]
    rfl
  | cons token after =>
    have none : multiplicative? token.kind = none := by
      simpa [Kind.isProduct] using avoids_cons.1 avoids
    rw [products]
    simp only [none]
    rfl

theorem operand_out (read : (term ending tokens).out = (.ok left, rest)) :
    (operand ending tokens).out = (sums ending left rest).out := by
  obtain ⟨le, read⟩ := Step.eq_of_out read
  rw [operand]
  simp only [read]
  rfl

theorem term_out (read : (factor ending tokens).out = (.ok left, rest)) :
    (term ending tokens).out = (products ending left rest).out := by
  obtain ⟨le, read⟩ := Step.eq_of_out read
  rw [term]
  simp only [read]
  rfl

theorem sums_more {token : Token} {op : Arithmetic} (plus : additive? token.kind = some op)
    (read : (term ending tokens).out = (.ok right, rest)) :
    (sums ending left (token :: tokens)).out = (sums ending (.binary left op right) rest).out := by
  obtain ⟨le, read⟩ := Step.eq_of_out read
  rw [sums]
  simp only [plus, read]
  rfl

theorem products_more {token : Token} {op : Arithmetic}
    (times : multiplicative? token.kind = some op)
    (read : (factor ending tokens).out = (.ok right, rest)) :
    (products ending left (token :: tokens)).out =
      (products ending (.binary left op right) rest).out := by
  obtain ⟨le, read⟩ := Step.eq_of_out read
  rw [products]
  simp only [times, read]
  rfl

theorem factor_signed {token : Token} {negative : Bool} (sign : signOf? token.kind = some negative)
    (read : (factor ending tokens).out = (.ok left, rest)) :
    (factor ending (token :: tokens)).out = (.ok (.signed negative left), rest) := by
  obtain ⟨le, read⟩ := Step.eq_of_out read
  rw [factor.eq_def]
  simp only [sign, read]
  rfl

theorem factor_paren {token : Token} (opens : token.kind = .lparen)
    (closes : closing.kind = .rparen)
    (read : (operand ending tokens).out = (.ok left, closing :: rest)) :
    (factor ending (token :: tokens)).out = (.ok (.paren left), rest) := by
  obtain ⟨le, read⟩ := Step.eq_of_out read
  rw [factor.eq_def]
  simp only [opens, signOf?, read, if_pos closes]
  rfl

theorem factor_identifier {token : Token} (named : token.kind = .identifier)
    (avoids : Avoids Kind.isOpening rest) :
    (factor ending (token :: rest)).out = (.ok (.identifier token.text), rest) := by
  rw [factor.eq_def]
  cases rest with
  | nil =>
    simp only [named, signOf?]
    rfl
  | cons opening inside =>
    have other : ¬opening.kind = .lparen := by
      simpa [Kind.isOpening] using avoids_cons.1 avoids
    simp only [named, signOf?, if_neg other]
    rfl

theorem factor_bareCall {token : Token} (named : token.kind = .identifier)
    (opens : opening.kind = .lparen) (closes : closing.kind = .rparen) :
    (factor ending (token :: opening :: closing :: rest)).out =
      (.ok (.call token.text []), rest) := by
  rw [factor.eq_def]
  simp only [named, signOf?, if_pos opens, if_pos closes]
  rfl

theorem factor_call {token first : Token} {operands : List Operand}
    (named : token.kind = .identifier) (opens : opening.kind = .lparen)
    (other : first.kind ≠ .rparen)
    (read : (arguments ending (first :: tokens)).out = (.ok operands, rest)) :
    (factor ending (token :: opening :: first :: tokens)).out =
      (.ok (.call token.text operands), rest) := by
  obtain ⟨le, read⟩ := Step.eq_of_out read
  rw [factor.eq_def]
  simp only [named, signOf?, if_pos opens, if_neg other, read]
  rfl

theorem factor_number {token : Token} (isNumber : token.kind = .number) :
    (factor ending (token :: rest)).out = (.ok (.number token.text), rest) := by
  rw [factor.eq_def]
  simp only [isNumber, signOf?]
  rfl

theorem factor_quoted {token : Token} (isQuoted : token.kind = .quotedText) :
    (factor ending (token :: rest)).out = (.ok (.quoted token.text), rest) := by
  rw [factor.eq_def]
  simp only [isQuoted, signOf?]
  rfl

theorem arguments_last (closes : closing.kind = .rparen)
    (read : (operand ending tokens).out = (.ok left, closing :: rest)) :
    (arguments ending tokens).out = (.ok [left], rest) := by
  obtain ⟨le, read⟩ := Step.eq_of_out read
  have noComma : ¬closing.kind = .comma := by
    rw [closes]
    decide
  rw [arguments]
  simp only [read, if_neg noComma, if_pos closes]
  rfl

theorem arguments_more {comma : Token} {operands : List Operand} (isComma : comma.kind = .comma)
    (read : (operand ending tokens).out = (.ok left, comma :: after))
    (more : (arguments ending after).out = (.ok operands, rest)) :
    (arguments ending tokens).out = (.ok (left :: operands), rest) := by
  obtain ⟨le, read⟩ := Step.eq_of_out read
  obtain ⟨lastLe, more⟩ := Step.eq_of_out more
  rw [arguments]
  simp only [read, if_pos isComma, more]
  rfl

theorem comparison_out {token : Token} {op : Comparison} (compares : token.kind = .comparison op)
    (read : (operand ending tokens).out = (.ok left, token :: after))
    (more : (operand ending after).out = (.ok right, rest)) :
    (comparison ending tokens).out = (.ok (.comparison left op right), rest) := by
  obtain ⟨le, read⟩ := Step.eq_of_out read
  obtain ⟨lastLe, more⟩ := Step.eq_of_out more
  unfold comparison
  simp only [read]
  split
  · next found =>
    cases compares.symm.trans found
    simp only [more]
    rfl
  · next other => exact absurd compares (other op)

end Steps

/-- Operands and arguments start with a word that may start an operand. -/
def Phrase.StartsOperand : Phrase → List Word → Prop
  | .factor _, words | .term _, words | .operand _, words | .arguments _, words =>
    ∃ word more, words = word :: more ∧ word.kind ∈ operandStart
  | _, _ => True

theorem Spells.startsOperand (spell : Spells phrase words) : phrase.StartsOperand words := by
  induction spell with
  | number | quoted | identifier | bareCall => exact ⟨_, _, rfl, by simp [operandStart]⟩
  | call => exact ⟨_, _, rfl, by simp [operandStart]⟩
  | @signed negative => exact ⟨_, _, rfl, by cases negative <;> decide⟩
  | paren => exact ⟨_, _, rfl, by decide⟩
  | lastArgument _ ih | argument _ _ ih _ | product _ _ _ ih _ | sum _ _ _ ih _ =>
    obtain ⟨word, more, rfl, starts⟩ := ih
    exact ⟨word, _, rfl, starts⟩
  | ofFactor _ ih | ofTerm _ ih => exact ih
  | comparison | group | not | lone | both | only | either => trivial

section Brackets

variable {token : Token} {rest : List Token} (depth : Nat)

theorem afterClosing_other (noOpening : token.kind ≠ .lparen) (noClosing : token.kind ≠ .rparen) :
    afterClosing depth (token :: rest) = afterClosing depth rest := by
  rw [afterClosing, if_neg noOpening, if_neg noClosing]

theorem afterClosing_open (opens : token.kind = .lparen) :
    afterClosing depth (token :: rest) = afterClosing (depth + 1) rest := by
  rw [afterClosing, if_pos opens]

theorem afterClosing_close (closes : token.kind = .rparen) :
    afterClosing (depth + 2) (token :: rest) = afterClosing (depth + 1) rest := by
  have noOpening : token.kind ≠ .lparen := by
    rw [closes]
    decide
  rw [afterClosing, if_neg noOpening, if_pos closes, if_neg (by omega)]
  rfl

theorem afterClosing_last (closes : token.kind = .rparen) :
    afterClosing 1 (token :: rest) = rest := by
  have noOpening : token.kind ≠ .lparen := by
    rw [closes]
    decide
  rw [afterClosing, if_neg noOpening, if_pos closes, if_pos (Nat.le_refl 1)]

end Brackets

/-- Tokens whose brackets match, so that skipping to a bracket behind them passes over them. -/
def Matched (used : List Token) : Prop :=
  ∀ depth rest, afterClosing (depth + 1) (used ++ rest) = afterClosing (depth + 1) rest

namespace Matched

theorem nil : Matched [] :=
  fun _ _ => rfl

theorem append {first second : List Token} (matched : Matched first) (others : Matched second) :
    Matched (first ++ second) := by
  intro depth rest
  rw [List.append_assoc, matched, others]

theorem cons {token : Token} {kind : Kind} (same : token.kind = kind) (noOpening : kind ≠ .lparen)
    (noClosing : kind ≠ .rparen) (matched : Matched used) : Matched (token :: used) := by
  intro depth rest
  rw [List.cons_append, afterClosing_other _ (same ▸ noOpening) (same ▸ noClosing), matched]

theorem brackets (opens : opening.kind = .lparen) (closes : closing.kind = .rparen)
    (matched : Matched used) : Matched (opening :: used ++ [closing]) := by
  intro depth rest
  rw [List.append_assoc, List.cons_append, afterClosing_open _ opens, matched]
  exact afterClosing_close _ closes

end Matched

/-- A word of fixed text between others is that of a token of its kind. -/
theorem spelled_between {kind : Kind} {first : List Word} (closed : kind.isOpen = false)
    (spelled : used.map Token.word = first ++ .fixed kind :: words) :
    ∃ inner token last, used = inner ++ token :: last ∧ inner.map Token.word = first ∧
      token.kind = kind ∧ last.map Token.word = words := by
  obtain ⟨inner, left, rfl, spelledInner, spelled⟩ := List.map_eq_append_iff.1 spelled
  obtain ⟨token, last, rfl, same, spelled⟩ := List.map_eq_cons_iff.1 spelled
  exact ⟨inner, token, last, rfl, spelledInner, (Token.word_fixed closed).1 same, spelled⟩

theorem spelled_closed {first : List Word}
    (spelled : used.map Token.word = first ++ [.fixed .rparen]) :
    ∃ inner closing, used = inner ++ [closing] ∧ inner.map Token.word = first ∧
      closing.kind = .rparen := by
  obtain ⟨inner, closing, last, rfl, spelledInner, closes, none⟩ := spelled_between rfl spelled
  obtain rfl := List.map_eq_nil_iff.1 none
  exact ⟨inner, closing, rfl, spelledInner, closes⟩

theorem spelled_brackets {first : List Word}
    (spelled : used.map Token.word = .fixed .lparen :: first ++ [.fixed .rparen]) :
    ∃ opening inner closing, used = opening :: (inner ++ [closing]) ∧ opening.kind = .lparen ∧
      inner.map Token.word = first ∧ closing.kind = .rparen := by
  obtain ⟨opening, left, rfl, opens, spelled⟩ := List.map_eq_cons_iff.1 spelled
  obtain ⟨inner, closing, rfl, spelledInner, closes⟩ := spelled_closed spelled
  exact ⟨opening, inner, closing, rfl, (Token.word_fixed rfl).1 opens, spelledInner, closes⟩

/-- The brackets of a part match; arguments come with the bracket that closes their call. -/
def Phrase.Matched : Phrase → List Token → Prop
  | .arguments _, used =>
    ∃ inner closing, used = inner ++ [closing] ∧ closing.kind = .rparen ∧ Having.Matched inner
  | _, used => Having.Matched used

theorem Spells.matched (spell : Spells phrase words) (spelled : used.map Token.word = words) :
    phrase.Matched used := by
  induction spell generalizing used with
  | number | quoted | identifier =>
    obtain ⟨token, rfl, same⟩ := List.map_eq_singleton_iff.1 spelled
    exact .cons ((Token.word_open rfl).1 same).1 (by decide) (by decide) .nil
  | signed _ ih =>
    obtain ⟨token, left, rfl, same, spelled⟩ := List.map_eq_cons_iff.1 spelled
    exact .cons ((Token.word_fixed rfl).1 same) (by simp) (by simp) (ih spelled)
  | paren _ ih | group _ ih =>
    obtain ⟨opening, inner, closing, rfl, opens, spelled, closes⟩ := spelled_brackets spelled
    exact .brackets opens closes (ih spelled)
  | bareCall =>
    obtain ⟨token, left, rfl, named, spelled⟩ := List.map_eq_cons_iff.1 spelled
    obtain ⟨opening, left, rfl, opens, spelled⟩ := List.map_eq_cons_iff.1 spelled
    obtain ⟨closing, rfl, closes⟩ := List.map_eq_singleton_iff.1 spelled
    exact .cons ((Token.word_open rfl).1 named).1 (by decide) (by decide)
      (.brackets ((Token.word_fixed rfl).1 opens) ((Token.word_fixed rfl).1 closes) .nil)
  | call _ ih =>
    obtain ⟨token, left, rfl, named, spelled⟩ := List.map_eq_cons_iff.1 spelled
    obtain ⟨opening, left, rfl, opens, spelled⟩ := List.map_eq_cons_iff.1 spelled
    obtain ⟨inner, closing, rfl, closes, matched⟩ := ih spelled
    exact .cons ((Token.word_open rfl).1 named).1 (by decide) (by decide)
      (.brackets ((Token.word_fixed rfl).1 opens) closes matched)
  | lastArgument _ ih =>
    obtain ⟨inner, closing, rfl, spelled, closes⟩ := spelled_closed spelled
    exact ⟨inner, closing, rfl, closes, ih spelled⟩
  | argument _ _ ihFirst ihRest =>
    obtain ⟨inner, comma, last, rfl, spelledInner, kind, spelled⟩ := spelled_between rfl spelled
    obtain ⟨others, closing, rfl, closes, matched⟩ := ihRest spelled
    refine ⟨inner ++ comma :: others, closing, by simp, closes, ?_⟩
    exact .append (ihFirst spelledInner) (.cons kind (by decide) (by decide) matched)
  | ofFactor _ ih | ofTerm _ ih | lone _ ih | only _ ih => exact ih spelled
  | product _ _ _ ihFirst ihRest | sum _ _ _ ihFirst ihRest | comparison _ _ ihFirst ihRest
  | both _ _ ihFirst ihRest | either _ _ ihFirst ihRest =>
    obtain ⟨inner, token, last, rfl, spelledInner, kind, spelled⟩ := spelled_between rfl spelled
    exact .append (ihFirst spelledInner) (.cons kind (by simp) (by simp) (ihRest spelled))
  | not _ ih =>
    obtain ⟨negation, left, rfl, negates, spelled⟩ := List.map_eq_cons_iff.1 spelled
    obtain ⟨opening, inner, closing, rfl, opens, spelled, closes⟩ := spelled_brackets spelled
    exact .cons ((Token.word_fixed rfl).1 negates) (by decide) (by decide)
      (.brackets opens closes (ih spelled))

theorem Matched.afterClosing {rest : List Token} (matched : Matched used)
    (opens : opening.kind = .lparen) (closes : closing.kind = .rparen) :
    Having.afterClosing 0 (opening :: (used ++ closing :: rest)) = rest := by
  rw [afterClosing_open _ opens, matched, afterClosing_last closes]

/-- Behind a bracket that an operand starts with, the operand ends or goes on with arithmetic. -/
def Phrase.GoesOn : Phrase → List Token → Prop
  | .factor _, used | .term _, used | .operand _, used =>
    (∀ token ∈ used.head?, token.kind = .lparen) → ∀ rest, ∃ others,
      afterClosing 0 (used ++ rest) = others ++ rest ∧
        ∀ token ∈ others.head?, ∃ op, token.kind = .arithmetic op
  | _, _ => True

theorem Spells.goesOn (spell : Spells phrase words) (spelled : used.map Token.word = words) :
    phrase.GoesOn used := by
  induction spell generalizing used with
  | number | quoted | identifier =>
    obtain ⟨token, rfl, same⟩ := List.map_eq_singleton_iff.1 spelled
    intro opens
    have kind := ((Token.word_open rfl).1 same).1
    exact absurd (opens token rfl) (by simp [kind])
  | signed | bareCall | call =>
    obtain ⟨token, left, rfl, same, -⟩ := List.map_eq_cons_iff.1 spelled
    intro opens
    have kind := congrArg Word.kind same
    rw [Token.word_kind, opens token rfl] at kind
    cases kind
  | @paren operand words inner _ =>
    obtain ⟨opening, used, closing, rfl, opens, spelled, closes⟩ := spelled_brackets spelled
    intro _ rest
    refine ⟨[], ?_, by simp⟩
    rw [List.cons_append, List.append_assoc]
    exact Matched.afterClosing (inner.matched spelled) opens closes
  | ofFactor _ ih | ofTerm _ ih => exact ih spelled
  | @product left right op first rest _ spellFirst _ ih _
  | @sum left right op first rest _ spellFirst _ ih _ =>
    obtain ⟨inner, operator, last, rfl, spelledInner, kind, -⟩ := spelled_between rfl spelled
    intro opens rest
    cases inner with
    | nil =>
      obtain ⟨word, more, eq, -⟩ := spellFirst.startsOperand
      rw [← spelledInner] at eq
      cases eq
    | cons token inner =>
      obtain ⟨others, after, arithmetic⟩ := ih spelledInner opens (operator :: last ++ rest)
      refine ⟨others ++ operator :: last, by simpa using after, ?_⟩
      cases others with
      | nil => exact fun token mem => ⟨op, by cases mem; exact kind⟩
      | cons token others => exact arithmetic
  | lastArgument | argument | comparison | group | not | lone | both | only | either => trivial

/-- Tokens that start with one of some kinds, or none at all. -/
def Ends (kinds : List Kind) (rest : List Token) : Prop :=
  ∀ token ∈ rest.head?, token.kind ∈ kinds

theorem ends_cons {kinds : List Kind} {token : Token} {rest : List Token} :
    Ends kinds (token :: rest) ↔ token.kind ∈ kinds := by
  simp [Ends]

theorem Ends.mono {kinds others : List Kind} {rest : List Token} (ends : Ends kinds rest)
    (subset : kinds ⊆ others) : Ends others rest :=
  fun token head => subset (ends token head)

theorem Ends.avoids {kinds : List Kind} {rest : List Token} (ends : Ends kinds rest)
    {avoided : Kind → Bool} (apart : ∀ kind ∈ kinds, avoided kind = false) :
    Avoids avoided rest :=
  fun token head => apart token.kind (ends token head)

/-- What may follow a comparison or a condition in brackets. -/
def afterPrimary : List Kind :=
  [.and, .or, .rparen]

def afterConjuncts : List Kind :=
  [.or, .rparen]

def afterBranches : List Kind :=
  [.rparen]

def Primary.out {tokens : List Token} (part : Primary tokens) :
    Except SyntaxError Expr × List SyntaxError × List Token :=
  (part.result, part.errors, part.rest)

def Parts.out {tokens : List Token} (parts : Parts tokens) :
    List Expr × List SyntaxError × List Token :=
  (parts.exprs, parts.errors, parts.rest)

def Part.out {tokens : List Token} (part : Part tokens) : Expr × List SyntaxError × List Token :=
  (part.expr, part.errors, part.rest)

section Parts

variable {ending : Text.Place} {tokens rest : List Token}

theorem settle_out {part : Primary tokens} (out : part.out = (.ok expr, [], rest)) :
    ∃ le, part.settle = ⟨[expr], [], rest, le⟩ := by
  cases part with
  | mk result errors rest le =>
    cases out
    exact ⟨le, rfl⟩

theorem parts_eq {parts : Parts tokens} (out : parts.out = (exprs, [], rest)) :
    ∃ le, parts = ⟨exprs, [], rest, le⟩ := by
  cases parts with
  | mk exprs errors rest le =>
    cases out
    exact ⟨le, rfl⟩

theorem conjuncts_last (ends : Ends afterConjuncts rest)
    (read : (primary ending tokens).out = (.ok expr, [], rest)) :
    (conjuncts ending tokens).out = ([expr], [], rest) := by
  obtain ⟨le, read⟩ := settle_out read
  rw [conjuncts]
  cases rest with
  | nil =>
    simp only [read]
    rfl
  | cons token after =>
    have notAnd : ¬token.kind = .and := by
      intro isAnd
      have ended := ends_cons.1 ends
      simp [isAnd, afterConjuncts] at ended
    simp only [read, if_neg notAnd]
    rfl

theorem conjuncts_more {token : Token} (isAnd : token.kind = .and)
    (read : (primary ending tokens).out = (.ok expr, [], token :: after))
    (more : (conjuncts ending after).out = (exprs, [], rest)) :
    (conjuncts ending tokens).out = (expr :: exprs, [], rest) := by
  obtain ⟨le, read⟩ := settle_out read
  obtain ⟨lastLe, more⟩ := parts_eq more
  rw [conjuncts]
  simp only [read, if_pos isAnd, more]
  rfl

theorem branches_last (ends : Ends afterBranches rest)
    (read : (conjuncts ending tokens).out = (exprs, [], rest)) :
    (branches ending tokens).out = ([collapse .and exprs], [], rest) := by
  obtain ⟨le, read⟩ := parts_eq read
  rw [branches]
  cases rest with
  | nil =>
    simp only [read]
    rfl
  | cons token after =>
    have notOr : ¬token.kind = .or := by
      intro isOr
      have ended := ends_cons.1 ends
      simp [isOr, afterBranches] at ended
    simp only [read, if_neg notOr]
    rfl

theorem branches_more {others : List Expr} {token : Token} (isOr : token.kind = .or)
    (read : (conjuncts ending tokens).out = (exprs, [], token :: after))
    (more : (branches ending after).out = (others, [], rest)) :
    (branches ending tokens).out = (collapse .and exprs :: others, [], rest) := by
  obtain ⟨le, read⟩ := parts_eq read
  obtain ⟨lastLe, more⟩ := parts_eq more
  rw [branches]
  simp only [read, if_pos isOr, more]
  rfl

theorem disjunction_out (read : (branches ending tokens).out = (exprs, [], rest)) :
    (disjunction ending tokens).out = (collapse .or exprs, [], rest) := by
  obtain ⟨le, read⟩ := parts_eq read
  rw [disjunction]
  simp only [read]
  rfl

theorem bracketed_out {make : Expr → Expr} (closes : closing.kind = .rparen)
    (read : (branches ending tokens).out = (exprs, [], closing :: rest)) :
    (bracketed ending make tokens).out = (.ok (make (collapse .or exprs)), [], rest) := by
  have whole := disjunction_out read
  rw [bracketed]
  cases inner : disjunction ending tokens with
  | mk expr errors left le =>
    rw [inner] at whole
    cases whole
    simp only [if_pos closes]
    rfl

theorem primary_not {negation : Token} (negates : negation.kind = .not)
    (opens : opening.kind = .lparen)
    (read : (bracketed ending .not tokens).out = (.ok expr, [], rest)) :
    (primary ending (negation :: opening :: tokens)).out = (.ok expr, [], rest) := by
  rw [primary]
  simp only [if_pos negates, if_pos opens]
  exact read

theorem primary_group (opens : opening.kind = .lparen)
    (condition : startsOperand (opening :: tokens) = false)
    (read : (bracketed ending .group tokens).out = (.ok expr, [], rest)) :
    (primary ending (opening :: tokens)).out = (.ok expr, [], rest) := by
  rw [primary.eq_def]
  simp only [condition, opens, Bool.not_false, and_self, if_true]
  exact read

theorem primary_comparison {token : Token} (starts : token.kind ∈ operandStart)
    (operand : token.kind = .lparen → startsOperand (token :: tokens) = true)
    (read : (comparison ending (token :: tokens)).out = (.ok expr, rest)) :
    (primary ending (token :: tokens)).out = (.ok expr, [], rest) := by
  obtain ⟨le, read⟩ := Step.eq_of_out read
  have notNot : ¬token.kind = .not := by
    intro isNot
    simp [isNot, operandStart] at starts
  have noGroup : ¬(token.kind = .lparen ∧ (!startsOperand (token :: tokens)) = true) := by
    rintro ⟨opens, none⟩
    rw [operand opens] at none
    cases none
  rw [primary.eq_def]
  simp only [if_neg notNot, if_neg noGroup, if_pos starts, read]
  rfl

end Parts

/-- Tokens that spell a part are read as it, and what may follow it is left. -/
def Phrase.Accepted : Phrase → List Token → Prop
  | .factor part, used => ∀ ending rest, Avoids Kind.isOpening rest →
      (Having.factor ending (used ++ rest)).out = (.ok part, rest)
  | .term part, used => ∀ ending rest, Avoids Kind.isOpening rest →
      (Having.term ending (used ++ rest)).out = (products ending part rest).out
  | .operand part, used => ∀ ending rest, Avoids Kind.isOpening rest → Avoids Kind.isProduct rest →
      (Having.operand ending (used ++ rest)).out = (sums ending part rest).out
  | .arguments parts, used => ∀ ending rest,
      (Having.arguments ending (used ++ rest)).out = (.ok parts, rest)
  | .primary expr, used => ∀ ending rest, Ends afterPrimary rest →
      (Having.primary ending (used ++ rest)).out = (.ok expr, [], rest)
  | .conjuncts exprs, used => ∀ ending rest, Ends afterConjuncts rest →
      (Having.conjuncts ending (used ++ rest)).out = (exprs, [], rest)
  | .branches exprs, used => ∀ ending rest, Ends afterBranches rest →
      (Having.branches ending (used ++ rest)).out = (exprs, [], rest)

/-- An operand before what neither goes on with it nor makes a call of it. -/
theorem Phrase.Accepted.operand {part : Operand} (accepted : Phrase.Accepted (.operand part) used)
    (ending : Text.Place) {rest : List Token} (noCall : Avoids Kind.isOpening rest)
    (noProduct : Avoids Kind.isProduct rest) (noSum : Avoids Kind.isSum rest) :
    (Having.operand ending (used ++ rest)).out = (.ok part, rest) :=
  (accepted ending rest noCall noProduct).trans (sums_done noSum)

theorem Phrase.Accepted.operand_before {part : Operand}
    (accepted : Phrase.Accepted (.operand part) used) (ending : Text.Place) {token : Token}
    {rest : List Token} {kind : Kind} (same : token.kind = kind)
    (apart : (kind.isOpening || kind.isProduct || kind.isSum) = false) :
    (Having.operand ending (used ++ token :: rest)).out = (.ok part, token :: rest) := by
  simp only [Bool.or_eq_false_iff] at apart
  exact accepted.operand ending (avoids_cons.2 (same ▸ apart.1.1))
    (avoids_cons.2 (same ▸ apart.1.2)) (avoids_cons.2 (same ▸ apart.2))

/-- A bracket before a condition is not taken for one before an operand: only connectives and
closing brackets follow conditions. -/
theorem startsOperand_group {rest : List Token} (matched : Matched used)
    (opens : opening.kind = .lparen) (closes : closing.kind = .rparen)
    (ends : Ends afterPrimary rest) :
    startsOperand (opening :: (used ++ closing :: rest)) = false := by
  rw [startsOperand, matched.afterClosing opens closes]
  cases rest with
  | nil => rfl
  | cons token after =>
    have ended := ends_cons.1 ends
    simp only [afterPrimary, List.mem_cons, List.not_mem_nil, or_false] at ended
    rcases ended with kind | kind | kind <;> simp [kind]

/-- A bracket before an operand is followed by arithmetic or the comparison. -/
theorem startsOperand_comparison {left : Operand} {token : Token} {op : Comparison}
    (spell : Spells (.operand left) words) (spelled : used.map Token.word = words)
    (compares : token.kind = .comparison op) (opens : ∀ token ∈ used.head?, token.kind = .lparen) :
    startsOperand (used ++ token :: after) = true := by
  obtain ⟨others, skipped, arithmetic⟩ := spell.goesOn spelled opens (token :: after)
  rw [startsOperand, skipped]
  cases others with
  | nil => simp [compares]
  | cons operator others =>
    obtain ⟨sign, kind⟩ := arithmetic operator rfl
    simp [kind]

theorem Spells.accepted (spell : Spells phrase words) (spelled : used.map Token.word = words) :
    phrase.Accepted used := by
  -- Each part is read before what follows it here, so the parts are read one after the other.
  induction spell generalizing used with
  | number =>
    obtain ⟨token, rfl, same⟩ := List.map_eq_singleton_iff.1 spelled
    obtain ⟨kind, rfl⟩ := (Token.word_open rfl).1 same
    exact fun ending rest _ => factor_number kind
  | quoted =>
    obtain ⟨token, rfl, same⟩ := List.map_eq_singleton_iff.1 spelled
    obtain ⟨kind, rfl⟩ := (Token.word_open rfl).1 same
    exact fun ending rest _ => factor_quoted kind
  | identifier =>
    obtain ⟨token, rfl, same⟩ := List.map_eq_singleton_iff.1 spelled
    obtain ⟨kind, rfl⟩ := (Token.word_open rfl).1 same
    exact fun ending rest noCall => factor_identifier kind noCall
  | signed _ ih =>
    obtain ⟨token, left, rfl, same, spelled⟩ := List.map_eq_cons_iff.1 spelled
    have sign := signOf?_eq_some.2 ((Token.word_fixed rfl).1 same)
    exact fun ending rest noCall => factor_signed sign (ih spelled ending rest noCall)
  | paren _ ih =>
    obtain ⟨opening, inner, closing, rfl, opens, spelled, closes⟩ := spelled_brackets spelled
    intro ending rest _
    rw [List.cons_append, List.append_assoc]
    exact factor_paren opens closes ((ih spelled).operand_before ending closes rfl)
  | bareCall =>
    obtain ⟨token, left, rfl, named, spelled⟩ := List.map_eq_cons_iff.1 spelled
    obtain ⟨opening, left, rfl, opens, spelled⟩ := List.map_eq_cons_iff.1 spelled
    obtain ⟨closing, rfl, closes⟩ := List.map_eq_singleton_iff.1 spelled
    obtain ⟨kind, rfl⟩ := (Token.word_open rfl).1 named
    exact fun ending rest _ => factor_bareCall kind ((Token.word_fixed rfl).1 opens)
      ((Token.word_fixed rfl).1 closes)
  | call arguments ih =>
    obtain ⟨token, left, rfl, named, spelled⟩ := List.map_eq_cons_iff.1 spelled
    obtain ⟨opening, left, rfl, opens, spelledArguments⟩ := List.map_eq_cons_iff.1 spelled
    obtain ⟨kind, rfl⟩ := (Token.word_open rfl).1 named
    obtain ⟨word, more, eq, starts⟩ := arguments.startsOperand
    obtain ⟨first, left, rfl, rfl, -⟩ := List.map_eq_cons_iff.1 (spelledArguments.trans eq)
    have other : first.kind ≠ .rparen := by
      intro closes
      simp [Token.word_kind, closes, operandStart] at starts
    intro ending rest _
    exact factor_call kind ((Token.word_fixed rfl).1 opens) other
      (ih spelledArguments ending rest)
  | lastArgument _ ih =>
    obtain ⟨inner, closing, rfl, spelled, closes⟩ := spelled_closed spelled
    intro ending rest
    rw [List.append_assoc]
    exact arguments_last closes ((ih spelled).operand_before ending closes rfl)
  | argument _ _ ihFirst ihRest =>
    obtain ⟨inner, comma, last, rfl, spelledInner, isComma, spelled⟩ := spelled_between rfl spelled
    intro ending rest
    rw [List.append_assoc]
    exact arguments_more isComma ((ihFirst spelledInner).operand_before ending isComma rfl)
      (ihRest spelled ending rest)
  | ofFactor _ ih =>
    intro ending rest noCall
    exact term_out (ih spelled ending rest noCall)
  | @product left right op first others isProduct _ _ ihFirst ihRest =>
    obtain ⟨inner, token, last, rfl, spelledInner, kind, spelled⟩ := spelled_between rfl spelled
    intro ending rest noCall
    rw [List.append_assoc]
    have before : Avoids Kind.isOpening (token :: (last ++ rest)) :=
      avoids_cons.2 (by rw [kind]; rfl)
    exact (ihFirst spelledInner ending _ before).trans
      (products_more (multiplicative?_eq_some.2 ⟨kind, isProduct⟩)
        (ihRest spelled ending rest noCall))
  | ofTerm _ ih =>
    intro ending rest noCall noProduct
    exact operand_out ((ih spelled ending rest noCall).trans (products_done noProduct))
  | @sum left right op first others isSum _ _ ihFirst ihRest =>
    obtain ⟨inner, token, last, rfl, spelledInner, kind, spelled⟩ := spelled_between rfl spelled
    intro ending rest noCall noProduct
    rw [List.append_assoc]
    have before : Avoids Kind.isOpening (token :: (last ++ rest)) :=
      avoids_cons.2 (by rw [kind]; rfl)
    have between : Avoids Kind.isProduct (token :: (last ++ rest)) :=
      avoids_cons.2 (by rw [kind]; cases op <;> first | rfl | cases isSum)
    exact (ihFirst spelledInner ending _ before between).trans
      (sums_more (additive?_eq_some.2 ⟨kind, isSum⟩)
        ((ihRest spelled ending rest noCall).trans (products_done noProduct)))
  | @comparison left right op first others spellFirst _ ihFirst ihRest =>
    obtain ⟨inner, token, last, rfl, spelledInner, compares, spelled⟩ := spelled_between rfl spelled
    intro ending rest ends
    have noCall : Avoids Kind.isOpening rest := ends.avoids (by decide)
    have noProduct : Avoids Kind.isProduct rest := ends.avoids (by decide)
    have noSum : Avoids Kind.isSum rest := ends.avoids (by decide)
    have read := comparison_out compares
      ((ihFirst spelledInner).operand_before ending compares rfl)
      ((ihRest spelled).operand ending noCall noProduct noSum)
    obtain ⟨word, more, eq, starts⟩ := spellFirst.startsOperand
    have spelledFirst := spelledInner
    rw [eq] at spelledInner
    obtain ⟨start, inner, rfl, rfl, -⟩ := List.map_eq_cons_iff.1 spelledInner
    rw [List.append_assoc]
    refine primary_comparison starts (fun opens => ?_) read
    exact startsOperand_comparison spellFirst spelledFirst compares
      fun token head => by cases head; exact opens
  | group inner ih =>
    obtain ⟨opening, used, closing, rfl, opens, spelled, closes⟩ := spelled_brackets spelled
    intro ending rest ends
    rw [List.cons_append, List.append_assoc]
    exact primary_group opens (startsOperand_group (inner.matched spelled) opens closes ends)
      (bracketed_out closes (ih spelled ending _ (ends_cons.2 (by simp [closes, afterBranches]))))
  | not inner ih =>
    obtain ⟨negation, left, rfl, negates, spelled⟩ := List.map_eq_cons_iff.1 spelled
    obtain ⟨opening, used, closing, rfl, opens, spelled, closes⟩ := spelled_brackets spelled
    intro ending rest _
    rw [List.cons_append, List.cons_append, List.append_assoc]
    exact primary_not ((Token.word_fixed rfl).1 negates) opens
      (bracketed_out closes (ih spelled ending _ (ends_cons.2 (by simp [closes, afterBranches]))))
  | lone _ ih =>
    intro ending rest ends
    exact conjuncts_last ends (ih spelled ending rest (ends.mono (by decide)))
  | both _ _ ihFirst ihRest =>
    obtain ⟨inner, token, last, rfl, spelledInner, isAnd, spelled⟩ := spelled_between rfl spelled
    intro ending rest ends
    rw [List.append_assoc]
    exact conjuncts_more isAnd
      (ihFirst spelledInner ending _ (ends_cons.2 (by simp [isAnd, afterPrimary])))
      (ihRest spelled ending rest ends)
  | only _ ih =>
    intro ending rest ends
    exact branches_last ends (ih spelled ending rest (ends.mono (by decide)))
  | either _ _ ihFirst ihRest =>
    obtain ⟨inner, token, last, rfl, spelledInner, isOr, spelled⟩ := spelled_between rfl spelled
    intro ending rest ends
    rw [List.append_assoc]
    exact branches_more isOr
      (ihFirst spelledInner ending _ (ends_cons.2 (by simp [isOr, afterConjuncts])))
      (ihRest spelled ending rest ends)

theorem Spells.words_ne_nil (spell : Spells phrase words) : words ≠ [] := by
  induction spell with
  | ofFactor _ ih | ofTerm _ ih | lone _ ih | only _ ih => exact ih
  | _ => simp

/-- A text without stray characters that holds the words of a condition is read as it. -/
theorem parse_complete {text : String} (clean : (lex text).errors = [])
    (spelled : expr.Spelled ((lex text).tokens.map Token.word)) : parse text = .ok (some expr) := by
  obtain ⟨exprs, rfl, spells⟩ := spelled
  have nonempty : (lex text).tokens ≠ [] := by
    intro empty
    exact spells.words_ne_nil (by rw [empty]; rfl)
  have read := disjunction_out
    (spells.accepted rfl (lex text).ending [] (fun _ head => by cases head))
  rw [List.append_nil] at read
  refine parse_eq_some.2 ⟨nonempty, clean, ?_⟩
  cases whole : disjunction (lex text).ending (lex text).tokens with
  | mk expr errors rest le =>
    rw [whole] at read
    cases read
    exact ⟨rfl, rfl, rfl⟩

end TelemetryQuery.Having
