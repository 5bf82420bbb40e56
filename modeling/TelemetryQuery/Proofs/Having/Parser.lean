import TelemetryQuery.Proofs.Having.Word
/- Conditions on results are read exactly from their words. -/
namespace TelemetryQuery.Having

variable {tokens rest : List Token} {words : List Word} {token : Token}

/-- Tokens up to a rest of them, by their words. -/
def Taken (tokens rest : List Token) (words : List Word) : Prop :=
  ∃ used, tokens = used ++ rest ∧ used.map Token.word = words

namespace Taken

theorem nil (tokens : List Token) : Taken tokens tokens [] :=
  ⟨[], rfl, rfl⟩

theorem cons (taken : Taken tokens rest words) :
    Taken (token :: tokens) rest (token.word :: words) := by
  obtain ⟨used, rfl, rfl⟩ := taken
  exact ⟨token :: used, rfl, rfl⟩

theorem trans {middle : List Token} {first second : List Word} (taken : Taken tokens middle first)
    (more : Taken middle rest second) : Taken tokens rest (first ++ second) := by
  obtain ⟨used, rfl, rfl⟩ := taken
  obtain ⟨others, rfl, rfl⟩ := more
  exact ⟨used ++ others, by simp, by simp⟩

theorem fixed {kind : Kind} (closed : kind.isOpen = false) (same : token.kind = kind)
    (taken : Taken tokens rest words) : Taken (token :: tokens) rest (.fixed kind :: words) :=
  (Token.word_fixed closed).2 same ▸ taken.cons

theorem text {kind : Kind} (opened : kind.isOpen = true) (same : token.kind = kind)
    (taken : Taken tokens rest words) :
    Taken (token :: tokens) rest (⟨kind, token.text⟩ :: words) :=
  (Token.word_open opened).2 ⟨same, rfl⟩ ▸ taken.cons

end Taken

/-- A step that, if it succeeds, takes the words of what it gives. -/
def Step.Takes {α : Type} {tokens : List Token} (step : Step α tokens) (phrase : α → Phrase) :
    Prop :=
  ∀ part, step.result = .ok part →
    ∃ words, Taken tokens step.rest words ∧ Spells (phrase part) words

/-- A step that goes on with an operand, whose words stand before the tokens. -/
def Step.Extends {tokens : List Token} (step : Step Operand tokens) (left : Operand)
    (phrase : Operand → Phrase) : Prop :=
  ∀ part, step.result = .ok part → ∀ first, Spells (phrase left) first →
    ∃ words, Taken tokens step.rest words ∧ Spells (phrase part) (first ++ words)

theorem Step.Takes.of_error {α : Type} {step : Step α tokens} {phrase : α → Phrase}
    {error : SyntaxError} (failed : step.result = .error error) : step.Takes phrase := by
  intro part ok
  rw [failed] at ok
  cases ok

theorem Step.Extends.of_error {step : Step Operand tokens} {left : Operand}
    {phrase : Operand → Phrase} {error : SyntaxError} (failed : step.result = .error error) :
    step.Extends left phrase := by
  intro part ok
  rw [failed] at ok
  cases ok

theorem Step.Extends.done (left : Operand) (tokens : List Token) (phrase : Operand → Phrase)
    {le : tokens.length ≤ tokens.length} :
    (⟨.ok left, tokens, le⟩ : Step Operand tokens).Extends left phrase := by
  rintro part ⟨⟩ first spells
  exact ⟨[], .nil _, by rwa [List.append_nil]⟩

section Operands

variable {ending : Text.Place}

theorem factor_takes_signed {after : List Token} {negative : Bool}
    (sign : signOf? token.kind = some negative) (takes : (factor ending after).Takes .factor) :
    (factor ending (token :: after)).Takes .factor := by
  rw [factor.eq_def]
  simp only [sign]
  generalize factor ending after = inner at takes ⊢
  obtain ⟨error | operand, rest, le⟩ := inner
  · exact .of_error rfl
  · rintro part ⟨⟩
    obtain ⟨words, taken, spells⟩ := takes operand rfl
    exact ⟨_, .fixed rfl (signOf?_eq_some.1 sign) taken, .signed spells⟩

theorem factor_takes_paren {after : List Token} (opens : token.kind = .lparen)
    (takes : (operand ending after).Takes .operand) :
    (factor ending (token :: after)).Takes .factor := by
  rw [factor.eq_def]
  simp only [opens, signOf?]
  generalize operand ending after = inner at takes ⊢
  obtain ⟨error | inside, _ | ⟨closing, last⟩, le⟩ := inner
  · exact .of_error rfl
  · exact .of_error rfl
  · exact .of_error rfl
  · by_cases closes : closing.kind = .rparen
    · simp only [if_pos closes]
      rintro part ⟨⟩
      obtain ⟨words, taken, spells⟩ := takes inside rfl
      have closed : Taken (closing :: last) last [.fixed .rparen] := .fixed rfl closes (.nil last)
      exact ⟨_, .fixed rfl opens (taken.trans closed), .paren spells⟩
    · simp only [if_neg closes]
      exact .of_error rfl

/-- A name is a factor, and is called if a bracket opens behind it. -/
theorem factor_takes_named {after : List Token} (named : token.kind = .identifier)
    (takes : ∀ inside, inside.length < after.length → (arguments ending inside).Takes .arguments) :
    (factor ending (token :: after)).Takes .factor := by
  rw [factor.eq_def]
  simp only [named, signOf?]
  rcases after with _ | ⟨opening, inside⟩ <;> dsimp only
  · rintro part ⟨⟩
    exact ⟨_, .text rfl named (.nil []), .identifier⟩
  · by_cases opens : opening.kind = .lparen
    · simp only [if_pos opens]
      rcases inside with _ | ⟨first, more⟩ <;> dsimp only
      · exact .of_error rfl
      · by_cases closes : first.kind = .rparen
        · simp only [if_pos closes]
          rintro part ⟨⟩
          exact ⟨_, .text rfl named (.fixed rfl opens (.fixed rfl closes (.nil more))), .bareCall⟩
        · have takesInside := takes (first :: more) (Nat.lt_succ_self _)
          simp only [if_neg closes]
          generalize arguments ending (first :: more) = inner at takesInside ⊢
          obtain ⟨error | operands, rest, le⟩ := inner
          · exact .of_error rfl
          · rintro part ⟨⟩
            obtain ⟨words, taken, spells⟩ := takesInside operands rfl
            exact ⟨_, .text rfl named (.fixed rfl opens taken), .call spells⟩
    · simp only [if_neg opens]
      rintro part ⟨⟩
      exact ⟨_, .text rfl named (.nil _), .identifier⟩

variable (ending)

-- One statement for each rule; they recur on one another as the rules do.
mutual

/-- An operand is read from its words. -/
theorem operand_takes (tokens : List Token) : (operand ending tokens).Takes .operand := by
  have takes := term_takes tokens
  have goesOn (left : Operand) (rest : List Token) (_ : rest.length ≤ tokens.length) :=
    sums_extends left rest
  rw [operand]
  generalize term ending tokens = first at takes ⊢
  obtain ⟨error | left, rest, le⟩ := first
  · exact .of_error rfl
  · intro part ok
    obtain ⟨words, taken, spells⟩ := takes left rfl
    obtain ⟨others, takenMore, spellsAll⟩ := goesOn left rest le part ok words (.ofTerm spells)
    exact ⟨_, taken.trans takenMore, spellsAll⟩
termination_by 6 * tokens.length + 4
decreasing_by all_goals omega

theorem sums_extends (left : Operand) (tokens : List Token) :
    (sums ending left tokens).Extends left .operand := by
  rw [sums.eq_def]
  rcases tokens with _ | ⟨token, after⟩ <;> dsimp only
  · exact .done left [] _
  · have takes := term_takes after
    have goesOn (left : Operand) (rest : List Token) (_ : rest.length ≤ after.length) :=
      sums_extends left rest
    cases plus : additive? token.kind with
    | none => exact .done left _ _
    | some op =>
      generalize term ending after = first at takes ⊢
      obtain ⟨error | right, rest, le⟩ := first
      · exact .of_error rfl
      · intro part ok before spells
        obtain ⟨kind, isSum⟩ := additive?_eq_some.1 plus
        obtain ⟨words, taken, spellsRight⟩ := takes right rfl
        obtain ⟨others, takenMore, spellsAll⟩ :=
          goesOn _ rest le part ok _ (.sum isSum spells spellsRight)
        exact ⟨_, .fixed rfl kind (taken.trans takenMore), by simpa using spellsAll⟩
termination_by 6 * tokens.length + 3
decreasing_by all_goals simp only [List.length_cons]; omega

theorem term_takes (tokens : List Token) : (term ending tokens).Takes .term := by
  have takes := factor_takes tokens
  have goesOn (left : Operand) (rest : List Token) (_ : rest.length ≤ tokens.length) :=
    products_extends left rest
  rw [term]
  generalize factor ending tokens = first at takes ⊢
  obtain ⟨error | left, rest, le⟩ := first
  · exact .of_error rfl
  · intro part ok
    obtain ⟨words, taken, spells⟩ := takes left rfl
    obtain ⟨others, takenMore, spellsAll⟩ := goesOn left rest le part ok words (.ofFactor spells)
    exact ⟨_, taken.trans takenMore, spellsAll⟩
termination_by 6 * tokens.length + 2
decreasing_by all_goals omega

theorem products_extends (left : Operand) (tokens : List Token) :
    (products ending left tokens).Extends left .term := by
  rw [products.eq_def]
  rcases tokens with _ | ⟨token, after⟩ <;> dsimp only
  · exact .done left [] _
  · have takes := factor_takes after
    have goesOn (left : Operand) (rest : List Token) (_ : rest.length ≤ after.length) :=
      products_extends left rest
    cases times : multiplicative? token.kind with
    | none => exact .done left _ _
    | some op =>
      generalize factor ending after = first at takes ⊢
      obtain ⟨error | right, rest, le⟩ := first
      · exact .of_error rfl
      · intro part ok before spells
        obtain ⟨kind, isProduct⟩ := multiplicative?_eq_some.1 times
        obtain ⟨words, taken, spellsRight⟩ := takes right rfl
        obtain ⟨others, takenMore, spellsAll⟩ :=
          goesOn _ rest le part ok _ (.product isProduct spells spellsRight)
        exact ⟨_, .fixed rfl kind (taken.trans takenMore), by simpa using spellsAll⟩
termination_by 6 * tokens.length + 1
decreasing_by all_goals simp only [List.length_cons]; omega

theorem factor_takes (tokens : List Token) : (factor ending tokens).Takes .factor := by
  rcases tokens with _ | ⟨token, after⟩
  · rw [factor]
    exact .of_error rfl
  · cases sign : signOf? token.kind with
    | some negative => exact factor_takes_signed sign (factor_takes after)
    | none =>
      cases kind : token.kind with
      | lparen => exact factor_takes_paren kind (operand_takes after)
      | identifier => exact factor_takes_named kind fun inside _ => arguments_takes inside
      | number =>
        rw [factor.eq_def]
        simp only [sign]
        simp only [kind]
        rintro part ⟨⟩
        exact ⟨_, .text rfl kind (.nil after), .number⟩
      | quotedText =>
        rw [factor.eq_def]
        simp only [sign]
        simp only [kind]
        rintro part ⟨⟩
        exact ⟨_, .text rfl kind (.nil after), .quoted⟩
      | _ =>
        rw [factor.eq_def]
        simp only [sign]
        simp only [kind]
        exact .of_error rfl
termination_by 6 * tokens.length
decreasing_by all_goals simp only [List.length_cons]; omega

theorem arguments_takes (tokens : List Token) : (arguments ending tokens).Takes .arguments := by
  have takes := operand_takes tokens
  have goesOn (rest : List Token) (_ : rest.length < tokens.length) := arguments_takes rest
  rw [arguments]
  generalize operand ending tokens = item at takes ⊢
  obtain ⟨error | first, _ | ⟨token, after⟩, le⟩ := item
  · exact .of_error rfl
  · exact .of_error rfl
  · exact .of_error rfl
  · obtain ⟨words, taken, spells⟩ := takes first rfl
    by_cases isComma : token.kind = .comma
    · simp only [if_pos isComma]
      have takesMore := goesOn after le
      generalize arguments ending after = more at takesMore ⊢
      obtain ⟨error | operands, last, lastLe⟩ := more
      · exact .of_error rfl
      · rintro part ⟨⟩
        obtain ⟨others, takenMore, spellsMore⟩ := takesMore operands rfl
        exact ⟨_, taken.trans (.fixed rfl isComma takenMore), .argument spells spellsMore⟩
    · by_cases closes : token.kind = .rparen
      · simp only [if_neg isComma, if_pos closes]
        rintro part ⟨⟩
        exact ⟨_, taken.trans (.fixed rfl closes (.nil after)), .lastArgument spells⟩
      · simp only [if_neg isComma, if_neg closes]
        exact .of_error rfl
termination_by 6 * tokens.length + 5
decreasing_by all_goals omega

end

end Operands
theorem comparison_takes (ending : Text.Place) (tokens : List Token) :
    (comparison ending tokens).Takes .primary := by
  have takes := operand_takes ending tokens
  rw [comparison]
  generalize operand ending tokens = first at takes ⊢
  obtain ⟨error | left, _ | ⟨token, after⟩, le⟩ := first
  · exact .of_error rfl
  · exact .of_error rfl
  · exact .of_error rfl
  · obtain ⟨words, taken, spells⟩ := takes left rfl
    dsimp only
    split
    · next op compares =>
      have takesRight := operand_takes ending after
      generalize operand ending after = second at takesRight ⊢
      obtain ⟨error | right, last, lastLe⟩ := second
      · exact .of_error rfl
      · rintro part ⟨⟩
        obtain ⟨others, takenMore, spellsRight⟩ := takesRight right rfl
        exact ⟨_, taken.trans (.fixed rfl compares takenMore), .comparison spells spellsRight⟩
    · exact .of_error rfl

/-- A condition without errors takes the words of its alternatives. -/
def Part.Takes {tokens : List Token} (part : Part tokens) : Prop :=
  part.errors = [] → ∃ exprs words, part.expr = collapse .or exprs ∧
    Taken tokens part.rest words ∧ Spells (.branches exprs) words

def Parts.Takes {tokens : List Token} (parts : Parts tokens) (phrase : List Expr → Phrase) :
    Prop :=
  parts.errors = [] → ∃ words, Taken tokens parts.rest words ∧ Spells (phrase parts.exprs) words

def Primary.Takes {tokens : List Token} (part : Primary tokens) : Prop :=
  part.errors = [] → ∀ expr, part.result = .ok expr →
    ∃ words, Taken tokens part.rest words ∧ Spells (.primary expr) words

/-- A condition in brackets takes its words and the closing bracket. -/
def Primary.Closes {tokens : List Token} (part : Primary tokens) (make : Expr → Expr) : Prop :=
  part.errors = [] → ∀ expr, part.result = .ok expr → ∃ exprs words,
    expr = make (collapse .or exprs) ∧ Taken tokens part.rest (words ++ [Word.fixed .rparen]) ∧
      Spells (.branches exprs) words

theorem Primary.settle_clean {part : Primary tokens} (clean : part.settle.errors = []) :
    part.errors = [] ∧ ∃ expr, part.result = .ok expr ∧ part.settle.exprs = [expr] ∧
      part.settle.rest = part.rest := by
  unfold settle at clean ⊢
  split at clean
  · next expr ok =>
    rw [ok]
    exact ⟨clean, expr, rfl, rfl, rfl⟩
  · exact absurd clean (by simp)

theorem Primary.Takes.settle {part : Primary tokens} (takes : part.Takes)
    (clean : part.settle.errors = []) :
    ∃ expr words, part.settle.exprs = [expr] ∧ Taken tokens part.settle.rest words ∧
      Spells (.primary expr) words := by
  obtain ⟨cleanPart, expr, ok, exprs, rest⟩ := Primary.settle_clean clean
  obtain ⟨words, taken, spells⟩ := takes cleanPart expr ok
  exact ⟨expr, words, exprs, rest ▸ taken, spells⟩

section Conditions

variable {ending : Text.Place}

theorem primary_takes_not {after : List Token} (isNot : token.kind = .not)
    (closes : ∀ inside, inside.length < after.length → (bracketed ending .not inside).Closes .not) :
    (primary ending (token :: after)).Takes := by
  rw [primary.eq_def]
  simp only [if_pos isNot]
  rcases after with _ | ⟨opening, inside⟩ <;> dsimp only
  · rintro - expr ⟨⟩
  · by_cases opens : opening.kind = .lparen
    · simp only [if_pos opens]
      intro clean expr ok
      obtain ⟨exprs, words, rfl, taken, spells⟩ := closes inside (Nat.lt_succ_self _) clean expr ok
      exact ⟨_, .fixed rfl isNot (.fixed rfl opens taken), .not spells⟩
    · simp only [if_neg opens]
      rintro - expr ⟨⟩

variable (ending)

mutual

/-- A condition is read from its words. -/
theorem disjunction_takes (tokens : List Token) : (disjunction ending tokens).Takes := by
  rw [disjunction]
  intro clean
  obtain ⟨words, taken, spells⟩ := branches_takes tokens clean
  exact ⟨_, words, rfl, taken, spells⟩
termination_by 5 * tokens.length + 3
decreasing_by omega

theorem branches_takes (tokens : List Token) : (branches ending tokens).Takes .branches := by
  have takes := conjuncts_takes tokens
  have goesOn (rest : List Token) (_ : rest.length < tokens.length) := branches_takes rest
  rw [branches]
  generalize conjuncts ending tokens = first at takes ⊢
  obtain ⟨exprs, errors, _ | ⟨token, after⟩, le⟩ := first
  · intro clean
    obtain ⟨words, taken, spells⟩ := takes clean
    exact ⟨words, taken, .only spells⟩
  · by_cases isOr : token.kind = .or
    · simp only [if_pos isOr]
      intro clean
      obtain ⟨cleanFirst, cleanMore⟩ := List.append_eq_nil_iff.1 clean
      obtain ⟨words, taken, spells⟩ := takes cleanFirst
      obtain ⟨others, takenMore, spellsMore⟩ := goesOn after le cleanMore
      exact ⟨_, taken.trans (.fixed rfl isOr takenMore), .either spells spellsMore⟩
    · simp only [if_neg isOr]
      intro clean
      obtain ⟨words, taken, spells⟩ := takes clean
      exact ⟨words, taken, .only spells⟩
termination_by 5 * tokens.length + 2
decreasing_by all_goals omega

theorem conjuncts_takes (tokens : List Token) : (conjuncts ending tokens).Takes .conjuncts := by
  have takes := (primary_takes tokens).settle
  have goesOn (rest : List Token) (_ : rest.length < tokens.length) := conjuncts_takes rest
  rw [conjuncts]
  generalize (primary ending tokens).settle = first at takes ⊢
  obtain ⟨exprs, errors, _ | ⟨token, after⟩, le⟩ := first
  · intro clean
    obtain ⟨expr, words, rfl, taken, spells⟩ := takes clean
    exact ⟨words, taken, .lone spells⟩
  · by_cases isAnd : token.kind = .and
    · simp only [if_pos isAnd]
      intro clean
      obtain ⟨cleanFirst, cleanMore⟩ := List.append_eq_nil_iff.1 clean
      obtain ⟨expr, words, rfl, taken, spells⟩ := takes cleanFirst
      obtain ⟨others, takenMore, spellsMore⟩ := goesOn after le cleanMore
      exact ⟨_, taken.trans (.fixed rfl isAnd takenMore), .both spells spellsMore⟩
    · simp only [if_neg isAnd]
      intro clean
      obtain ⟨expr, words, rfl, taken, spells⟩ := takes clean
      exact ⟨words, taken, .lone spells⟩
termination_by 5 * tokens.length + 1
decreasing_by all_goals omega

theorem primary_takes (tokens : List Token) : (primary ending tokens).Takes := by
  rcases tokens with _ | ⟨token, after⟩
  · rw [primary]
    rintro - expr ⟨⟩
  · by_cases isNot : token.kind = .not
    · exact primary_takes_not isNot fun inside _ => bracketed_closes .not inside
    · have takes := comparison_takes ending (token :: after)
      have closes := bracketed_closes .group after
      rw [primary.eq_def]
      simp only [if_neg isNot]
      split
      · next opens =>
        intro clean expr ok
        obtain ⟨exprs, words, rfl, taken, spells⟩ := closes clean expr ok
        exact ⟨_, .fixed rfl opens.1 taken, .group spells⟩
      · split
        · exact fun _ => takes
        · rintro - expr ⟨⟩
termination_by 5 * tokens.length
decreasing_by all_goals simp only [List.length_cons]; omega

theorem bracketed_closes (make : Expr → Expr) (tokens : List Token) :
    (bracketed ending make tokens).Closes make := by
  have takes := disjunction_takes tokens
  rw [bracketed]
  generalize disjunction ending tokens = inner at takes ⊢
  obtain ⟨expr, errors, _ | ⟨closing, rest⟩, le⟩ := inner
  · rintro - expr ⟨⟩
  · by_cases closes : closing.kind = .rparen
    · simp only [if_pos closes]
      rintro clean _ ⟨⟩
      obtain ⟨exprs, words, same, taken, spells⟩ := takes clean
      exact ⟨exprs, words, congrArg make same, taken.trans (.fixed rfl closes (.nil rest)), spells⟩
    · simp only [if_neg closes]
      rintro - expr ⟨⟩
termination_by 5 * tokens.length + 4
decreasing_by omega

end

end Conditions

theorem trailing?_eq_nil : trailing? tokens = [] ↔ tokens = [] := by
  cases tokens <;> simp [trailing?]

theorem parse_eq_some {text : String} {expr : Expr} :
    parse text = .ok (some expr) ↔ (lex text).tokens ≠ [] ∧ (lex text).errors = [] ∧
      (disjunction (lex text).ending (lex text).tokens).errors = [] ∧
      (disjunction (lex text).ending (lex text).tokens).rest = [] ∧
      (disjunction (lex text).ending (lex text).tokens).expr = expr := by
  unfold parse
  dsimp only
  by_cases empty : (lex text).tokens = []
  · simp only [empty, List.isEmpty_nil, if_true]
    split <;> simp
  · have some : (lex text).tokens.isEmpty = false := by simpa using empty
    simp only [some, Bool.false_eq_true, if_false]
    split
    · next clean =>
      simp only [List.isEmpty_iff, List.append_eq_nil_iff, trailing?_eq_nil] at clean
      simp [empty, clean]
    · next faulty =>
      simp only [List.isEmpty_iff, List.append_eq_nil_iff, trailing?_eq_nil, not_and] at faulty
      simp only [reduceCtorEq, false_iff, not_and]
      intro _ cleanLex clean rest
      exact absurd rest (faulty ⟨cleanLex, clean⟩)

/-- A text that is read as a condition holds the words of the condition and no others. -/
theorem parse_sound {text : String} {expr : Expr} (parsed : parse text = .ok (some expr)) :
    (lex text).errors = [] ∧ expr.Spelled ((lex text).tokens.map Token.word) := by
  obtain ⟨-, cleanLex, clean, rest, same⟩ := parse_eq_some.1 parsed
  obtain ⟨exprs, words, made, ⟨used, eq, rfl⟩, spells⟩ :=
    disjunction_takes (lex text).ending _ clean
  rw [rest, List.append_nil] at eq
  rw [← eq] at spells
  exact ⟨cleanLex, exprs, same ▸ made, spells⟩

end TelemetryQuery.Having
