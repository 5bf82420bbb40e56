import Mathlib.Data.List.Forall2
import TelemetryQuery.Proofs.Filter.Parser
/- Reading goes on after errors, and only forward. It ends because every rule recurs on fewer
tokens, or on the same ones with a rule further down. Every error is about the token at which the
reader stands, errors come in the order of the text, and there are at most as many of them as
tokens, with the end of the text counted as one. -/
namespace TelemetryQuery.Filter

/-- An error about the next of some tokens, or about the end of the text if there is none. -/
def Points (ending : Text.Place) (rest : List Token) (error : SyntaxError) : Prop :=
  error.place = rest.head?.elim ending Token.place ∧ error.offending = rest.head?.map Token.text

theorem Scope.expecting_points (scope : Scope) (kinds : List Kind) (tokens : List Token) :
    Points scope.ending tokens (scope.expecting kinds tokens) :=
  ⟨rfl, rfl⟩

/-- What reading leaves: an end of the tokens, and an error only about the first of that end. -/
def Leaves {α : Type} (ending : Text.Place) (tokens : List Token) (result : Except SyntaxError α)
    (rest : List Token) : Prop :=
  rest <:+ tokens ∧ ∀ error, result = .error error → Points ending rest error

namespace Leaves

variable {α β : Type} {ending : Text.Place} {tokens middle rest : List Token}
  {result : Except SyntaxError α} {error : SyntaxError}

theorem ok (a : α) (forward : rest <:+ tokens) : Leaves ending tokens (.ok a) rest :=
  ⟨forward, by rintro _ ⟨⟩⟩

theorem failed (forward : rest <:+ tokens) (points : Points ending rest error) :
    Leaves ending tokens (.error error : Except SyntaxError α) rest :=
  ⟨forward, by rintro _ ⟨⟩; exact points⟩

theorem after (forward : middle <:+ tokens) (leaves : Leaves ending middle result rest) :
    Leaves ending tokens result rest :=
  ⟨leaves.1.trans forward, leaves.2⟩

theorem map (f : α → β) (leaves : Leaves ending tokens result rest) :
    Leaves ending tokens (result.map f) rest := by
  cases result with
  | ok a => exact ok _ leaves.1
  | error error => exact failed leaves.1 (leaves.2 error rfl)

end Leaves

namespace Reader

variable {α β : Type} {reader first item : Reader α}

/-- A reader that only goes forward, and fails by an error about the token that it stops at. -/
def Onward (reader : Reader α) : Prop :=
  ∀ scope tokens,
    Leaves scope.ending tokens (reader.run scope tokens).1 (reader.run scope tokens).2

theorem onward_pure (a : α) : (Pure.pure a : Reader α).Onward :=
  fun _ _ => .ok a List.suffix_rfl

theorem onward_bind {next : α → Reader β} (onwardFirst : first.Onward)
    (onwardNext : ∀ a, (next a).Onward) : (first >>= next).Onward := by
  intro scope tokens
  have leaves := onwardFirst scope tokens
  change Leaves _ _ ((first.bind next).run scope tokens).1 ((first.bind next).run scope tokens).2
  unfold bind
  dsimp only
  generalize first.run scope tokens = result at leaves
  obtain ⟨error | a, rest⟩ := result
  · exact .failed leaves.1 (leaves.2 error rfl)
  · exact (onwardNext a scope rest).after leaves.1

theorem onward_expecting (kinds : List Kind) : (expecting kinds : Reader α).Onward :=
  fun scope tokens => .failed List.suffix_rfl (scope.expecting_points kinds tokens)

theorem onward_peek : peek.Onward :=
  fun _ _ => .ok _ List.suffix_rfl

theorem onward_take (kinds : List Kind) (choose : Token → Option α) :
    (take kinds choose).Onward := by
  intro scope tokens
  cases tokens with
  | nil => exact .failed List.suffix_rfl (scope.expecting_points kinds [])
  | cons token rest =>
    unfold take
    dsimp only
    cases choose token with
    | none => exact .failed List.suffix_rfl (scope.expecting_points kinds _)
    | some a => exact .ok a (List.suffix_cons token rest)

theorem onward_expect (kind : Kind) {next : Reader α} (onward : next.Onward) :
    (expect kind >>= fun _ => next).Onward :=
  onward_bind (onward_take _ _) fun _ => onward

/-- What is read is made into something. -/
theorem onward_made (make : α → β) (onward : reader.Onward) :
    (reader >>= fun a => Pure.pure (make a)).Onward :=
  onward_bind onward fun a => onward_pure (make a)

theorem onward_within (rule : Rule) (onward : reader.Onward) : (within rule reader).Onward :=
  fun scope tokens => onward (scope.enter rule) tokens

theorem moreItems_leaves (onward : item.Onward) (close : Kind) (scope : Scope)
    (tokens : List Token) :
    Leaves scope.ending tokens (moreItems item close scope tokens).1
      (moreItems item close scope tokens).2.1 := by
  fun_induction moreItems item close scope tokens with
  | case1 => exact .failed List.suffix_rfl (scope.expecting_points _ [])
  | case2 token rest _ a left eq le result last lastLe more ih =>
    have item := onward scope rest
    rw [eq] at item
    rw [more] at ih
    exact (ih.after (item.1.trans (List.suffix_cons token rest))).map _
  | case3 token rest _ error left eq =>
    have item := onward scope rest
    rw [eq] at item
    exact .failed (item.1.trans (List.suffix_cons token rest)) (item.2 error rfl)
  | case4 token rest _ _ => exact .ok [] (List.suffix_cons token rest)
  | case5 token rest _ _ => exact .failed List.suffix_rfl (scope.expecting_points _ _)

theorem onward_items (close : Kind) (onward : item.Onward) : (items item close).Onward :=
  onward_bind onward fun _ scope tokens => (moreItems_leaves onward close scope tokens).map _

end Reader

open Reader

theorem value_onward : value.Onward :=
  onward_within _ (onward_take _ _)

theorem valueList_onward (close : Kind) : (valueList close).Onward :=
  onward_within _ (onward_items close value_onward)

theorem key_onward : key.Onward :=
  onward_take _ _

theorem inClause_onward : inClause.Onward := by
  refine onward_within _ (onward_expect _ (onward_bind onward_peek fun kind => ?_))
  split
  · exact onward_expect _ (onward_made _ (valueList_onward _))
  · exact onward_expect _ (onward_made _ (valueList_onward _))
  · split
    · exact onward_made _ value_onward
    · exact onward_expecting _

theorem testAfter_onward (negated : Bool) : (testAfter negated).Onward := by
  refine onward_bind onward_peek fun kind => ?_
  split
  · exact onward_expect _ (onward_bind value_onward fun _ =>
      onward_expect _ (onward_made _ value_onward))
  · exact onward_expect _ (onward_pure _)
  · exact onward_made _ inClause_onward
  · split
    · exact onward_expect _ (onward_made _ value_onward)
    · split
      · exact onward_expecting _
      · exact onward_expect _ (onward_made _ value_onward)
    · exact onward_expecting _

theorem test_onward : test.Onward := by
  refine onward_bind onward_peek fun kind => ?_
  split
  · exact onward_expect _ (testAfter_onward true)
  · exact testAfter_onward false

theorem parameter_onward : parameter.Onward := by
  refine onward_within _ (onward_bind onward_peek fun kind => ?_)
  split
  · exact onward_made _ key_onward
  · exact onward_expect _ (onward_made _ (valueList_onward _))
  · split
    · exact onward_made _ value_onward
    · exact onward_expecting _

theorem parameters_onward : parameters.Onward :=
  onward_expect _ (onward_items _ parameter_onward)

/-- Errors that are found on the way from some tokens to an end of them, each about the token that
was next when it was found. -/
inductive Raised (ending : Text.Place) : List Token → List SyntaxError → List Token → Prop
  | none {tokens rest : List Token} : rest <:+ tokens → Raised ending tokens [] rest
  | error {tokens cursor rest : List Token} {error : SyntaxError} {errors : List SyntaxError} :
      cursor <:+ tokens → Points ending cursor error → Raised ending cursor errors rest →
      Raised ending tokens (error :: errors) rest

namespace Raised

variable {ending : Text.Place} {tokens middle rest : List Token} {error : SyntaxError}
  {errors more : List SyntaxError}

theorem after (forward : middle <:+ tokens) (raised : Raised ending middle errors rest) :
    Raised ending tokens errors rest := by
  cases raised with
  | none suffix => exact .none (suffix.trans forward)
  | error suffix points raised => exact .error (suffix.trans forward) points raised

theorem trans (raised : Raised ending tokens errors middle)
    (later : Raised ending middle more rest) : Raised ending tokens (errors ++ more) rest := by
  induction raised with
  | none suffix => exact later.after suffix
  | error suffix points _ ih => exact .error suffix points (ih later)

theorem skip (raised : Raised ending tokens errors middle) (forward : rest <:+ middle) :
    Raised ending tokens errors rest := by
  simpa using raised.trans (.none forward)

theorem snoc (raised : Raised ending tokens errors rest) (points : Points ending rest error) :
    Raised ending tokens (errors ++ [error]) rest :=
  raised.trans (.error List.suffix_rfl points (.none List.suffix_rfl))

end Raised

/-- A part of a query is read forward, with no more errors than tokens that it takes and some
spare ones. -/
def Part.Progresses {α : Type} {tokens : List Token} (ending : Text.Place) (spare : Nat)
    (part : Part α tokens) : Prop :=
  Raised ending tokens part.remarks.errors part.rest ∧
    part.remarks.errors.length + part.rest.length ≤ tokens.length + spare

/-- A term is read forward. If it is read, it takes more tokens than it has errors. If it fails, its
own error is the last one, about the token where it stops, and the errors before it are no more than
the tokens taken. -/
def TermPart.Progresses {tokens : List Token} (ending : Text.Place) : TermPart tokens → Prop
  | .read _ remarks rest _ =>
    Raised ending tokens remarks.errors rest ∧
      remarks.errors.length + rest.length < tokens.length
  | .failed error remarks rest _ =>
    Raised ending tokens (remarks.errors ++ [error]) rest ∧
      remarks.errors.length + rest.length ≤ tokens.length

theorem resume_suffix (tokens : List Token) : resume tokens <:+ tokens := by
  induction tokens with
  | nil => exact List.suffix_rfl
  | cons token rest ih =>
    rw [resume]
    split
    · exact List.suffix_rfl
    · exact ih.trans (List.suffix_cons token rest)

theorem TermPart.ofReader_progresses {α : Type} {reader : Reader α} (onward : reader.Onward)
    (scope : Scope) (negated : Bool) (make : α → Atom) (token : Token) (after : List Token) :
    (TermPart.ofReader scope negated make reader after (length_lt_cons token after)).Progresses
      scope.ending := by
  have leaves := onward scope after
  have shorter := reader.shrinks scope after
  unfold ofReader
  split
  · next a left eq =>
    rw [eq] at leaves shorter
    exact ⟨.none (leaves.1.trans (List.suffix_cons token after)), by
      simpa [Remarks.none] using Nat.lt_succ_of_le shorter⟩
  · next error left eq =>
    rw [eq] at leaves shorter
    have forward := leaves.1.trans (List.suffix_cons token after)
    exact ⟨(Raised.none forward).snoc (leaves.2 error rfl), by
      simpa [Remarks.none] using Nat.le_succ_of_le shorter⟩

theorem leaf_progresses (scope : Scope) (negated : Bool) (token : Token) (after : List Token) :
    (leaf scope negated token after).Progresses scope.ending := by
  have found : ∀ (atom : Atom) (ambiguities : List Ambiguity),
      (TermPart.read (.atom negated atom) ⟨[], ambiguities⟩ after
        (length_lt_cons token after)).Progresses scope.ending :=
    fun _ _ => ⟨.none (List.suffix_cons token after), by simp⟩
  unfold leaf
  split
  · exact TermPart.ofReader_progresses parameters_onward _ _ _ _ _
  · split
    · split
      · exact TermPart.ofReader_progresses test_onward _ _ _ _ _
      · exact found _ _
    · exact found _ _
    · exact found _ _
    · exact found _ _
    · exact found _ _
    · exact ⟨(Raised.none List.suffix_rfl).snoc (scope.expecting_points _ _), by
        simp [Remarks.none]⟩

/-- Two parts one after the other are read forward, with the spare errors of both. -/
theorem Part.Progresses.followed {α β : Type} {tokens : List Token} {ending : Text.Place}
    {spare spareMore : Nat} {first : Part α tokens} {more : Part β first.rest}
    (progresses : first.Progresses ending spare) (later : more.Progresses ending spareMore) :
    Raised ending tokens (first.remarks.errors ++ more.remarks.errors) more.rest ∧
      (first.remarks.errors ++ more.remarks.errors).length + more.rest.length ≤
        tokens.length + (spare + spareMore) := by
  refine ⟨progresses.1.trans later.1, ?_⟩
  have counted := progresses.2
  have countedMore := later.2
  rw [List.length_append]
  omega

/-- Terms behind one that was read. -/
theorem TermPart.Progresses.read_followed {tokens rest left : List Token} {ending : Text.Place}
    {term : Term} {remarks : Remarks} {lt : rest.length < tokens.length}
    {more : Part Conjunction left}
    (progresses : (TermPart.read term remarks rest lt).Progresses ending)
    (forward : left <:+ rest) (later : more.Progresses ending 1) :
    Raised ending tokens (remarks.errors ++ more.remarks.errors) more.rest ∧
      (remarks.errors ++ more.remarks.errors).length + more.rest.length ≤ tokens.length + 1 := by
  refine ⟨(progresses.1.skip forward).trans later.1, ?_⟩
  have counted := progresses.2
  have countedMore := later.2
  have shorter := forward.length_le
  rw [List.length_append]
  omega

/-- Terms behind a token at which reading is taken up after one that failed. -/
theorem TermPart.Progresses.failed_followed {tokens rest left : List Token} {ending : Text.Place}
    {error : SyntaxError} {remarks : Remarks} {le : rest.length ≤ tokens.length} {token : Token}
    {more : Part Conjunction left}
    (progresses : (TermPart.failed error remarks rest le).Progresses ending)
    (forward : token :: left <:+ rest) (later : more.Progresses ending 1) :
    Raised ending tokens (remarks.errors ++ [error] ++ more.remarks.errors) more.rest ∧
      (remarks.errors ++ [error] ++ more.remarks.errors).length + more.rest.length ≤
        tokens.length + 1 := by
  refine ⟨(progresses.1.skip ((List.suffix_cons token left).trans forward)).trans later.1, ?_⟩
  have counted := progresses.2
  have countedMore := later.2
  have shorter := forward.length_le
  rw [List.length_append, List.length_append]
  simp only [List.length_cons, List.length_nil] at shorter ⊢
  omega

/-- Nothing is read behind a term that failed. -/
theorem TermPart.Progresses.failed_last {tokens rest left : List Token} {ending : Text.Place}
    {error : SyntaxError} {remarks : Remarks} {le : rest.length ≤ tokens.length}
    (progresses : (TermPart.failed error remarks rest le).Progresses ending)
    (forward : left <:+ rest) :
    Raised ending tokens (remarks.errors ++ [error]) left ∧
      (remarks.errors ++ [error]).length + left.length ≤ tokens.length + 1 := by
  refine ⟨progresses.1.skip forward, ?_⟩
  have counted := progresses.2
  have shorter := forward.length_le
  rw [List.length_append, List.length_singleton]
  omega

/-- After a term that failed, reading is taken up behind the next `AND` or ends. -/
theorem conjunction_progresses_failed {scope : Scope} {tokens rest : List Token}
    {error : SyntaxError} {remarks : Remarks} {le : rest.length ≤ tokens.length}
    (failed : term (scope.enter .term) tokens = .failed error remarks rest le)
    (progresses : (TermPart.failed error remarks rest le).Progresses scope.ending)
    (later : ∀ token after, resume rest = token :: after → token.kind = .and →
      (conjunction scope after).Progresses scope.ending 1) :
    (conjunction scope tokens).Progresses scope.ending 1 := by
  have forward := resume_suffix rest
  rw [conjunction]
  simp only [failed]
  split
  · exact progresses.failed_last List.nil_suffix
  · next token after resumed =>
    rw [resumed] at forward
    split
    · next isAnd => exact progresses.failed_followed forward (later token after resumed isAnd)
    · exact progresses.failed_last forward

theorem conjunction_progresses_read {scope : Scope} {tokens rest : List Token} {first : Term}
    {remarks : Remarks} {lt : rest.length < tokens.length}
    (read : term (scope.enter .term) tokens = .read first remarks rest lt)
    (progresses : (TermPart.read first remarks rest lt).Progresses scope.ending)
    (later : ∀ rest, rest.length < tokens.length →
      (conjunction scope rest).Progresses scope.ending 1) :
    (conjunction scope tokens).Progresses scope.ending 1 := by
  have last : Raised scope.ending tokens remarks.errors rest ∧
      remarks.errors.length + rest.length ≤ tokens.length + 1 :=
    ⟨progresses.1, Nat.le_succ_of_le (Nat.le_of_lt progresses.2)⟩
  rw [conjunction]
  rcases rest with _ | ⟨token, after⟩
  · simp only [read]
    exact last
  · simp only [read]
    split
    · exact progresses.read_followed (List.suffix_cons token after)
        (later after (Nat.lt_of_succ_lt lt))
    · split
      · exact progresses.read_followed List.suffix_rfl (later _ lt)
      · exact last

theorem primary_progresses_group {scope : Scope} {negated : Bool} {token : Token}
    {after : List Token} (opened : token.kind = .lparen)
    (progresses : (disjunction scope after).Progresses scope.ending 1) :
    (primary scope negated (token :: after)).Progresses scope.ending := by
  rw [primary, if_pos opened]
  generalize disjunction scope after = inner at progresses ⊢
  obtain ⟨branches, remarks, _ | ⟨closing, rest⟩, le⟩ := inner
  · exact ⟨(progresses.1.after (List.suffix_cons token after)).snoc (scope.expecting_points _ []),
      progresses.2⟩
  · have raised := progresses.1.after (List.suffix_cons token after)
    by_cases closed : closing.kind = .rparen
    · simp only [if_pos closed]
      exact ⟨raised.skip (List.suffix_cons closing rest),
        Nat.lt_succ_of_le (Nat.le_of_succ_le_succ progresses.2)⟩
    · simp only [if_neg closed]
      exact ⟨raised.snoc (scope.expecting_points _ _), progresses.2⟩

-- Every rule reads forward. A group that is not closed is the reason why a failed term may have as
-- many errors before its own as tokens: its bracket pays for the error that its inside may have at
-- the end of the text.
mutual

theorem disjunction_progresses (scope : Scope) (tokens : List Token) :
    (disjunction scope tokens).Progresses scope.ending 1 := by
  have le := (conjunction ((scope.enter .disjunction).enter .conjunction) tokens).le
  have first := conjunction_progresses ((scope.enter .disjunction).enter .conjunction) tokens
  have more := alternatives_progresses (scope.enter .disjunction)
    (conjunction ((scope.enter .disjunction).enter .conjunction) tokens).rest
  rw [disjunction]
  exact first.followed more
termination_by 5 * tokens.length + 4
decreasing_by all_goals omega

theorem alternatives_progresses (scope : Scope) (tokens : List Token) :
    (alternatives scope tokens).Progresses scope.ending 0 := by
  rcases tokens with _ | ⟨token, after⟩
  · rw [alternatives]
    exact ⟨.none List.suffix_rfl, Nat.le_refl _⟩
  · by_cases isOr : token.kind = .or
    · have le := (conjunction (scope.enter .conjunction) after).le
      have first := conjunction_progresses (scope.enter .conjunction) after
      have more := alternatives_progresses scope
        (conjunction (scope.enter .conjunction) after).rest
      rw [alternatives, if_pos isOr]
      obtain ⟨raised, counted⟩ := first.followed more
      exact ⟨raised.after (List.suffix_cons token after), counted⟩
    · rw [alternatives, if_neg isOr]
      exact ⟨.none List.suffix_rfl, by simp [Remarks.none]⟩
termination_by 5 * tokens.length + 3
decreasing_by all_goals simp only [List.length_cons]; omega

theorem conjunction_progresses (scope : Scope) (tokens : List Token) :
    (conjunction scope tokens).Progresses scope.ending 1 := by
  have progresses := term_progresses (scope.enter .term) tokens
  have later (rest : List Token) (_ : rest.length < tokens.length) := conjunction_progresses scope rest
  cases read : term (scope.enter .term) tokens with
  | read first remarks rest lt =>
    exact conjunction_progresses_read read (read ▸ progresses) later
  | failed error remarks rest le =>
    refine conjunction_progresses_failed read (read ▸ progresses) fun token after resumed _ => ?_
    exact later after (Nat.le_trans (le_of_resume resumed) le)
termination_by 5 * tokens.length + 2
decreasing_by all_goals omega

theorem term_progresses (scope : Scope) (tokens : List Token) :
    (term scope tokens).Progresses scope.ending := by
  rcases tokens with _ | ⟨token, after⟩
  · rw [term]
    exact ⟨(Raised.none List.suffix_rfl).snoc (scope.expecting_points primaryStart []),
      Nat.le_refl _⟩
  · by_cases isNot : token.kind = .not
    · have progresses := primary_progresses (scope.enter .primary) true after
      rw [term, if_pos isNot]
      generalize primary (scope.enter .primary) true after = part at progresses ⊢
      cases part with
      | read found remarks rest lt =>
        exact ⟨progresses.1.after (List.suffix_cons token after), Nat.lt_succ_of_lt progresses.2⟩
      | failed error remarks rest le =>
        exact ⟨progresses.1.after (List.suffix_cons token after), Nat.le_succ_of_le progresses.2⟩
    · rw [term, if_neg isNot]
      exact primary_progresses (scope.enter .primary) false (token :: after)
termination_by 5 * tokens.length + 1
decreasing_by all_goals simp only [List.length_cons]; omega

theorem primary_progresses (scope : Scope) (negated : Bool) (tokens : List Token) :
    (primary scope negated tokens).Progresses scope.ending := by
  rcases tokens with _ | ⟨token, after⟩
  · rw [primary]
    exact ⟨(Raised.none List.suffix_rfl).snoc (scope.expecting_points primaryStart []),
      Nat.le_refl _⟩
  · by_cases opened : token.kind = .lparen
    · exact primary_progresses_group opened (disjunction_progresses scope after)
    · rw [primary, if_neg opened]
      exact leaf_progresses _ _ _ _
termination_by 5 * tokens.length
decreasing_by all_goals simp only [List.length_cons]; omega

end

/-- An error about the token at a position. The end of the text has the position behind the last
token. -/
def Lexed.Marks (lexed : Lexed) (position : Nat) (error : SyntaxError) : Prop :=
  error.place = lexed.tokens[position]?.elim lexed.ending.place Token.place ∧
    error.offending = lexed.tokens[position]?.map Token.text

theorem Points.marks {lexed : Lexed} {position : Nat} {error : SyntaxError}
    (points : Points lexed.ending.place (lexed.tokens.drop position) error) :
    lexed.Marks position error := by
  rwa [Points, List.head?_drop] at points

/-- An end of the tokens behind a position is what follows a later position. -/
theorem exists_drop_of_suffix {tokens rest : List Token} {start : Nat}
    (within : start ≤ tokens.length) (forward : rest <:+ tokens.drop start) :
    ∃ position, start ≤ position ∧ position ≤ tokens.length ∧ rest = tokens.drop position := by
  have shorter := forward.length_le
  rw [List.length_drop] at shorter
  refine ⟨tokens.length - rest.length, by omega, Nat.sub_le _ _, ?_⟩
  exact List.suffix_iff_eq_drop.1 (forward.trans (List.drop_suffix start tokens))

/-- The positions at which errors are found never go back. -/
theorem Raised.positions {lexed : Lexed} {errors : List SyntaxError} {tokens rest : List Token}
    (raised : Raised lexed.ending.place tokens errors rest) {start : Nat}
    (within : start ≤ lexed.tokens.length) (here : tokens = lexed.tokens.drop start) :
    ∃ cursors last, List.Forall₂ lexed.Marks cursors errors ∧
      (start :: (cursors ++ [last])).Pairwise (· ≤ ·) ∧ last ≤ lexed.tokens.length ∧
      rest = lexed.tokens.drop last := by
  induction raised generalizing start with
  | none suffix =>
    obtain ⟨last, later, bounded, rfl⟩ := exists_drop_of_suffix within (here ▸ suffix)
    exact ⟨[], last, .nil, by simpa using later, bounded, rfl⟩
  | error suffix points _ ih =>
    obtain ⟨position, later, bounded, rfl⟩ := exists_drop_of_suffix within (here ▸ suffix)
    obtain ⟨cursors, last, marks, ordered, lastBounded, left⟩ := ih bounded rfl
    refine ⟨position :: cursors, last, .cons points.marks marks, ?_, lastBounded, left⟩
    refine List.pairwise_cons.2 ⟨fun cursor mem => ?_, ordered⟩
    rcases List.mem_cons.1 mem with rfl | mem
    · exact later
    · exact Nat.le_trans later ((List.pairwise_cons.1 ordered).1 cursor mem)

/-- The whole of a text is read forward up to an error about what is left behind the expression. -/
theorem trailing_progresses {scope : Scope} {tokens rest : List Token}
    {errors : List SyntaxError} (raised : Raised scope.ending tokens errors rest)
    (counted : errors.length + rest.length ≤ tokens.length + 1) :
    Raised scope.ending tokens (errors ++ trailing? scope rest) rest ∧
      (errors ++ trailing? scope rest).length ≤ tokens.length + 1 := by
  cases rest with
  | nil => simpa [trailing?] using And.intro raised counted
  | cons token after =>
    refine ⟨raised.snoc ⟨rfl, rfl⟩, ?_⟩
    rw [trailing?, List.length_append, List.length_singleton]
    rw [List.length_cons] at counted
    omega

/-- Reading a text adds to the errors of its characters only errors about tokens or the end of the
text, at positions that never go back. It stops at a token or at the end, not before the last of
these positions, and there are at most as many of these errors as tokens, the end among them. -/
theorem read_recovers (text : String) :
    ∃ added cursors last, (read text).errors = (lex text).errors ++ added ∧
      List.Forall₂ (lex text).Marks cursors added ∧ (cursors ++ [last]).Pairwise (· ≤ ·) ∧
      last ≤ (lex text).tokens.length ∧
      (disjunction ⟨[.query], (lex text).ending.place⟩ (lex text).tokens).rest =
        (lex text).tokens.drop last ∧
      added.length ≤ (lex text).tokens.length + 1 := by
  obtain ⟨raised, counted⟩ :=
    disjunction_progresses ⟨[.query], (lex text).ending.place⟩ (lex text).tokens
  have start : (lex text).tokens = (lex text).tokens.drop 0 := rfl
  rw [read]
  dsimp only
  split
  · next empty =>
    obtain ⟨cursors, last, -, -, bounded, left⟩ := raised.positions (Nat.zero_le _) start
    exact ⟨[], [], last, by simp, .nil, List.pairwise_singleton _ _, bounded, left,
      Nat.zero_le _⟩
  · obtain ⟨all, few⟩ := trailing_progresses raised counted
    obtain ⟨cursors, last, marks, ordered, bounded, left⟩ :=
      all.positions (Nat.zero_le _) start
    exact ⟨_, cursors, last, List.append_assoc _ _ _, marks, (List.pairwise_cons.1 ordered).2,
      bounded, left, few⟩

/-- Brackets that are not closed reach the bound. -/
example : (read "((").errors.length = (lex "((").tokens.length + 1 := by
  decide +kernel

end TelemetryQuery.Filter
