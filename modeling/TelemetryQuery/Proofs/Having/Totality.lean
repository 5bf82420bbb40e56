import TelemetryQuery.Proofs.Having.Lexeme
import TelemetryQuery.Proofs.Having.Run
/- Every text is answered. A rule that reads some tokens needs fuel for a multiple of their number
and for the rules below it, and then does what the rules without a cursor do. -/
namespace TelemetryQuery.Having

/-- Where a run comes to by reading a part, with the errors found before it. -/
def Step.reached {α : Type} {tokens : List Token} (step : Step α tokens) (ending : Text.Place)
    (errors : List SyntaxError) : Except Halt (Except SyntaxError α × Cursor) :=
  .ok (step.result, ⟨step.rest, ending, errors⟩)

def Part.reached {tokens : List Token} (part : Part tokens) (ending : Text.Place)
    (errors : List SyntaxError) : Except Halt (Except SyntaxError Expr × Cursor) :=
  .ok (.ok part.expr, ⟨part.rest, ending, errors ++ part.errors⟩)

def Parts.reached {tokens : List Token} (parts : Parts tokens) (ending : Text.Place)
    (errors : List SyntaxError) : Except Halt (Except SyntaxError (List Expr) × Cursor) :=
  .ok (.ok parts.exprs, ⟨parts.rest, ending, errors ++ parts.errors⟩)

def Primary.reached {tokens : List Token} (part : Primary tokens) (ending : Text.Place)
    (errors : List SyntaxError) : Except Halt (Except SyntaxError Expr × Cursor) :=
  .ok (part.result, ⟨part.rest, ending, errors ++ part.errors⟩)

namespace Run

variable {α β : Type} {ending : Text.Place} {errors : List SyntaxError}

@[simp] theorem bind_apply (run : Run α) (next : α → Run β) (cursor : Cursor) :
    (run >>= next) cursor = match run cursor with
      | .error halt => .error halt
      | .ok (.error error, later) => .ok (.error error, later)
      | .ok (.ok a, later) => next a later :=
  rfl

@[simp] theorem pure_apply (a : α) (cursor : Cursor) :
    (pure a : Run α) cursor = .ok (.ok a, cursor) :=
  rfl

@[simp] theorem ahead_apply (cursor : Cursor) : ahead cursor = .ok (.ok cursor.ahead, cursor) :=
  rfl

@[simp] theorem kind_nil : kind ⟨[], ending, errors⟩ = .ok (.ok none, ⟨[], ending, errors⟩) :=
  rfl

@[simp] theorem kind_cons (token : Token) (rest : List Token) :
    kind ⟨token :: rest, ending, errors⟩ =
      .ok (.ok (some token.kind), ⟨token :: rest, ending, errors⟩) :=
  rfl

@[simp] theorem advance_cons (token : Token) (rest : List Token) :
    advance ⟨token :: rest, ending, errors⟩ = .ok (.ok (), ⟨rest, ending, errors⟩) :=
  rfl

@[simp] theorem expected_apply (kinds : List Kind) (cursor : Cursor) :
    (expected kinds : Run α) cursor =
      .ok (.error (expecting cursor.ending kinds cursor.ahead), cursor) :=
  rfl

@[simp] theorem expect_cons (wanted : Kind) (token : Token) (rest : List Token) :
    expect wanted ⟨token :: rest, ending, errors⟩ =
      if token.kind = wanted then .ok (.ok (), ⟨rest, ending, errors⟩)
      else .ok (.error (expecting ending [wanted] (token :: rest)),
        ⟨token :: rest, ending, errors⟩) := by
  by_cases same : token.kind = wanted <;> simp [expect, same]

/-- With fuel for the tokens and for the rules below it, each rule for operands comes to its
place. -/
structure ReadsOperands (ending : Text.Place) (fuel : Nat) : Prop where
  operand tokens errors : 6 * tokens.length + 4 < fuel → operand fuel ⟨tokens, ending, errors⟩ =
    (Having.operand ending tokens).reached ending errors
  sums left tokens errors : 6 * tokens.length + 3 < fuel →
    sums fuel left ⟨tokens, ending, errors⟩ =
      (Having.sums ending left tokens).reached ending errors
  term tokens errors : 6 * tokens.length + 2 < fuel → term fuel ⟨tokens, ending, errors⟩ =
    (Having.term ending tokens).reached ending errors
  products left tokens errors : 6 * tokens.length + 1 < fuel →
    products fuel left ⟨tokens, ending, errors⟩ =
      (Having.products ending left tokens).reached ending errors
  factor tokens errors : 6 * tokens.length < fuel → factor fuel ⟨tokens, ending, errors⟩ =
    (Having.factor ending tokens).reached ending errors
  arguments tokens errors : 6 * tokens.length + 5 < fuel →
    arguments fuel ⟨tokens, ending, errors⟩ =
      (Having.arguments ending tokens).reached ending errors

theorem arguments_nil (ending : Text.Place) : Having.arguments ending [] =
    ⟨.error (expecting ending operandStart []), [], Nat.le_refl _⟩ := by
  simp [Having.arguments, Having.operand, Having.term, Having.factor]

theorem readsOperands (ending : Text.Place) (fuel : Nat) : ReadsOperands ending fuel := by
  induction fuel with
  | zero => constructor <;> (intros; omega)
  | succ fuel ih =>
    constructor
    -- A token that is read pays for going down the rules again.
    case operand =>
      intro tokens errors enough
      rw [Run.operand, Having.operand, bind_apply, ih.term _ _ (by omega)]
      rcases Having.term ending tokens with ⟨error | left, rest, le⟩
      · rfl
      · exact ih.sums left rest errors (by omega)
    case sums =>
      intro left tokens errors enough
      rw [Run.sums, Having.sums.eq_def]
      rcases tokens with _ | ⟨token, after⟩
      · rfl
      · rw [List.length_cons] at enough
        cases found : additive? token.kind with
        | none => simp [found, Step.reached]
        | some op =>
          simp only [bind_apply, kind_cons, Option.bind_some, found, advance_cons,
            ih.term after errors (by omega)]
          rcases Having.term ending after with ⟨error | right, rest, le⟩
          · rfl
          · exact ih.sums _ rest errors (by omega)
    case term =>
      intro tokens errors enough
      rw [Run.term, Having.term, bind_apply, ih.factor _ _ (by omega)]
      rcases Having.factor ending tokens with ⟨error | left, rest, le⟩
      · rfl
      · exact ih.products left rest errors (by omega)
    case products =>
      intro left tokens errors enough
      rw [Run.products, Having.products.eq_def]
      rcases tokens with _ | ⟨token, after⟩
      · rfl
      · rw [List.length_cons] at enough
        cases found : multiplicative? token.kind with
        | none => simp [found, Step.reached]
        | some op =>
          simp only [bind_apply, kind_cons, Option.bind_some, found, advance_cons,
            ih.factor after errors (by omega)]
          rcases Having.factor ending after with ⟨error | right, rest, le⟩
          · rfl
          · exact ih.products _ rest errors (by omega)
    case factor =>
      intro tokens errors enough
      rw [Run.factor, Having.factor.eq_def]
      rcases tokens with _ | ⟨token, after⟩
      · rfl
      · rw [List.length_cons] at enough
        simp only [bind_apply, ahead_apply]
        cases signOf? token.kind with
        | some negative =>
          simp only [bind_apply, advance_cons, ih.factor after errors (by omega)]
          rcases Having.factor ending after with ⟨error | inner, rest, le⟩ <;> rfl
        | none =>
          cases token.kind with
          | lparen =>
            simp only [bind_apply, advance_cons, ih.operand after errors (by omega)]
            rcases Having.operand ending after with ⟨error | inner, _ | ⟨closing, rest⟩, le⟩
            · rfl
            · rfl
            · rfl
            · by_cases closed : closing.kind = .rparen <;> simp [Step.reached, closed]
          | identifier =>
            rcases after with _ | ⟨opening, inside⟩
            · rfl
            · rw [List.length_cons] at enough
              have read := ih.arguments inside errors (by omega)
              by_cases opened : opening.kind = .lparen
              · rcases inside with _ | ⟨first, more⟩
                · simp [opened, read, arguments_nil, Step.reached]
                · by_cases closed : first.kind = .rparen
                  · simp [opened, closed, Step.reached]
                  · simp only [bind_apply, kind_cons, advance_cons, opened, closed, read,
                      Option.some.injEq, if_true, if_false]
                    rcases Having.arguments ending _ with ⟨error | all, rest, le⟩ <;> rfl
              · simp [opened, Step.reached]
          | _ => rfl
    case arguments =>
      intro tokens errors enough
      rw [Run.arguments, Having.arguments, bind_apply, ih.operand _ _ (by omega)]
      rcases Having.operand ending tokens with ⟨error | first, _ | ⟨token, after⟩, le⟩
      · rfl
      · rfl
      · rfl
      · rw [List.length_cons] at le
        simp only [Step.reached, bind_apply, kind_cons]
        cases token.kind with
        | comma =>
          simp only [bind_apply, advance_cons, ih.arguments after errors (by omega)]
          rcases Having.arguments ending after with ⟨error | all, rest, le⟩ <;> rfl
        | _ => rfl

theorem comparison_reaches {fuel : Nat} {tokens : List Token}
    (enough : 6 * tokens.length + 4 < fuel) : comparison fuel ⟨tokens, ending, errors⟩ =
      (Having.comparison ending tokens).reached ending errors := by
  have reads := readsOperands ending fuel
  rw [comparison, Having.comparison, bind_apply, reads.operand _ _ enough]
  rcases Having.operand ending tokens with ⟨error | left, _ | ⟨token, after⟩, le⟩
  · rfl
  · rfl
  · rfl
  · rw [List.length_cons] at le
    simp only [Step.reached, bind_apply, kind_cons]
    cases token.kind with
    | comparison op =>
      simp only [bind_apply, advance_cons, reads.operand after errors (by omega)]
      rcases Having.operand ending after with ⟨error | right, rest, le⟩ <;> rfl
    | _ => rfl

/-- With a bracket open, the count is positive wherever one closes. -/
theorem opensOperand_apply (cursor : Cursor) : (depth : Nat) → (tokens : List Token) →
    opensOperand (depth + 1) tokens cursor =
      .ok (.ok (goesOn (afterClosing (depth + 1) tokens)), cursor)
  | _, [] => rfl
  | depth, token :: rest => by
    rw [opensOperand, afterClosing]
    cases token.kind with
    | lparen => exact opensOperand_apply cursor (depth + 1) rest
    | rparen =>
      cases depth with
      | zero => rfl
      | succ depth => exact opensOperand_apply cursor depth rest
    | _ => exact opensOperand_apply cursor depth rest

/-- Looking ahead from an opening bracket counts it first. -/
theorem opensOperand_open {token : Token} {rest : List Token} (opens : token.kind = .lparen)
    (cursor : Cursor) : opensOperand 0 (token :: rest) cursor =
      .ok (.ok (startsOperand (token :: rest)), cursor) := by
  have starts : startsOperand (token :: rest) = goesOn (afterClosing 0 (token :: rest)) := rfl
  rw [starts, afterClosing, if_pos opens, opensOperand]
  simp only [opens]
  exact opensOperand_apply cursor 0 rest

theorem synchronize_apply : (fuel depth : Nat) → (tokens : List Token) → tokens.length < fuel →
    synchronize fuel depth ⟨tokens, ending, errors⟩ =
      .ok (.ok (), ⟨resume depth tokens, ending, errors⟩)
  | 0, _, _, enough => absurd enough (Nat.not_lt_zero _)
  | fuel + 1, depth, [], _ => rfl
  | fuel + 1, depth, token :: rest, enough => by
    have more := fun depth => synchronize_apply fuel depth rest (Nat.lt_of_succ_lt_succ enough)
    rw [synchronize, resume]
    simp only [bind_apply, kind_cons]
    cases token.kind with
    -- Outside brackets the skip ends here, so only a positive count is lowered.
    | rparen | and | or =>
      cases depth with
      | zero => rfl
      | succ depth => exact more _
    | _ => exact more _

theorem settle_reaches {fuel : Nat} {tokens : List Token} {run : Run Expr} {part : Primary tokens}
    (enough : tokens.length < fuel)
    (read : run ⟨tokens, ending, errors⟩ = part.reached ending errors) :
    settle fuel run ⟨tokens, ending, errors⟩ = part.settle.reached ending errors := by
  obtain ⟨error | expr, found, rest, le⟩ := part
  · have few : rest.length < fuel := Nat.lt_of_le_of_lt le enough
    simp [settle, read, Primary.reached, synchronize_apply fuel 0 rest few, Parts.reached,
      Primary.settle]
  · simp [settle, read, Primary.reached, Parts.reached, Primary.settle]

/-- With fuel for the tokens and for the rules below it, each rule for conditions comes to its
place. -/
structure ReadsConditions (ending : Text.Place) (fuel : Nat) : Prop where
  disjunction tokens errors : 6 * tokens.length + 9 < fuel →
    disjunction fuel ⟨tokens, ending, errors⟩ =
      (Having.disjunction ending tokens).reached ending errors
  branches tokens errors : 6 * tokens.length + 8 < fuel → branches fuel ⟨tokens, ending, errors⟩ =
    (Having.branches ending tokens).reached ending errors
  conjuncts tokens errors : 6 * tokens.length + 7 < fuel →
    conjuncts fuel ⟨tokens, ending, errors⟩ =
      (Having.conjuncts ending tokens).reached ending errors
  primary tokens errors : 6 * tokens.length + 6 < fuel → primary fuel ⟨tokens, ending, errors⟩ =
    (Having.primary ending tokens).reached ending errors
  bracketed make tokens errors : 6 * tokens.length + 10 < fuel →
    bracketed fuel make ⟨tokens, ending, errors⟩ =
      (Having.bracketed ending make tokens).reached ending errors

theorem readsConditions (ending : Text.Place) (fuel : Nat) : ReadsConditions ending fuel := by
  induction fuel with
  | zero => constructor <;> (intros; omega)
  | succ fuel ih =>
    constructor
    case disjunction =>
      intro tokens errors enough
      rw [Run.disjunction, Having.disjunction, bind_apply, ih.branches _ _ (by omega)]
      rfl
    case branches =>
      intro tokens errors enough
      rw [Run.branches, Having.branches, bind_apply, ih.conjuncts _ _ (by omega)]
      rcases Having.conjuncts ending tokens with ⟨exprs, found, _ | ⟨token, after⟩, le⟩
      · rfl
      · rw [List.length_cons] at le
        have more := ih.branches after (errors ++ found) (by omega)
        by_cases isOr : token.kind = .or <;> simp [Parts.reached, isOr, more]
    case conjuncts =>
      intro tokens errors enough
      have first := settle_reaches (show _ < fuel by omega) (ih.primary tokens errors (by omega))
      rw [Run.conjuncts, Having.conjuncts, bind_apply, first]
      rcases (Having.primary ending tokens).settle with ⟨exprs, found, _ | ⟨token, after⟩, le⟩
      · rfl
      · rw [List.length_cons] at le
        have more := ih.conjuncts after (errors ++ found) (by omega)
        by_cases isAnd : token.kind = .and <;> simp [Parts.reached, isAnd, more]
    case primary =>
      intro tokens errors enough
      rw [Run.primary, Having.primary.eq_def]
      rcases tokens with _ | ⟨token, after⟩
      · simp [Primary.reached]
      · have compared := @comparison_reaches ending errors fuel (token :: after) (by omega)
        rw [List.length_cons] at enough
        simp only [bind_apply, kind_cons]
        cases same : token.kind with
        | not =>
          rcases after with _ | ⟨opening, inside⟩
          · simp [Primary.reached, expect]
          · rw [List.length_cons] at enough
            have inner := ih.bracketed .not inside errors (by omega)
            by_cases opened : opening.kind = .lparen <;> simp [opened, Primary.reached, inner]
        | lparen =>
          simp only [bind_apply, ahead_apply, opensOperand_open same]
          cases startsOperand (token :: after) with
          | true => simp [compared, Step.reached, Primary.reached, operandStart]
          | false => simp [ih.bracketed .group after errors (by omega), Primary.reached]
        | _ =>
          simp only [reduceCtorEq, if_false, false_and]
          split
          · simp [compared, Step.reached, Primary.reached]
          · simp [Primary.reached]
    case bracketed =>
      intro make tokens errors enough
      rw [Run.bracketed, Having.bracketed, bind_apply, ih.disjunction _ _ (by omega)]
      rcases Having.disjunction ending tokens with ⟨expr, found, _ | ⟨closing, rest⟩, le⟩
      · rfl
      · by_cases closed : closing.kind = .rparen <;>
          simp [Part.reached, Primary.reached, closed]

/-- A token is not empty, and ends in the text. -/
theorem tokenize_eq : (fuel : Nat) → (place : Text.Place) → (text : List Char) →
    text.length < fuel → tokenize fuel place text = .ok (lexFrom place text)
  | 0, _, _, enough => absurd enough (Nat.not_lt_zero _)
  | fuel + 1, place, [], _ => by rw [tokenize, lexFrom]
  | fuel + 1, place, c :: text, enough => by
    rw [List.length_cons] at enough
    rw [tokenize, lexFrom]
    split
    · exact tokenize_eq fuel _ text (by omega)
    · cases found : tokenAt? (c :: text) with
      | none =>
        simp only [tokenize_eq fuel _ text (by omega)]
        rfl
      | some token =>
        obtain ⟨kind, length⟩ := token
        obtain ⟨positive, bounded⟩ := (tokenAt?_eq_some.1 found).bounded
        obtain ⟨length, rfl⟩ := Nat.exists_eq_add_one.2 positive
        have shorter : (text.drop length).length < fuel := by
          rw [List.length_drop]
          omega
        simp only [if_neg (Nat.not_lt.2 bounded), List.take_succ_cons, List.drop_succ_cons,
          tokenize_eq fuel _ _ shorter]
        rfl

theorem lexFrom_tokens_le (place : Text.Place) (text : List Char) :
    (lexFrom place text).tokens.length ≤ text.length := by
  fun_induction lexFrom place text <;> grind

end Run

/-- Every text is cut into tokens in one turn for each of its characters and a last one. With calls
nested no deeper than six times its length and ten, a run answers it as `parse` does. It never moves
the cursor on from the end and never lowers a count that is zero. If it answers by errors, there are
some. -/
theorem parse_total (text : String) :
    Run.tokenize (text.length + 1) .start text.toList = .ok (lex text) ∧
      (∀ more, Run.answer (6 * text.length + 10 + more) text = .ok (parse text)) ∧
      parse text ≠ .error [] := by
  have length : text.toList.length = text.length := String.length_toList
  have cut (fuel : Nat) (enough : text.length < fuel) :
      Run.tokenize fuel .start text.toList = .ok (lex text) :=
    Run.tokenize_eq fuel _ _ (length ▸ enough)
  refine ⟨cut _ (Nat.lt_succ_self _), fun more => ?_, ?_⟩
  · have few : (lex text).tokens.length ≤ text.length := length ▸ Run.lexFrom_tokens_le .start _
    have reads := Run.readsConditions (lex text).ending (6 * text.length + 10 + more)
    have read := reads.disjunction (lex text).tokens (lex text).errors (by omega)
    rw [Run.answer, cut _ (by omega), parse]
    by_cases empty : (lex text).tokens.isEmpty = true
    · simp only [if_pos empty]
    · simp only [if_neg empty, read, Part.reached]
  · rw [parse]
    dsimp only
    split
    · split <;> simp_all
    · split <;> simp_all

end TelemetryQuery.Having
