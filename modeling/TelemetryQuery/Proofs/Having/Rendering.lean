import TelemetryQuery.Proofs.Filter.Printer
import TelemetryQuery.Proofs.Having.Acceptance
import TelemetryQuery.Proofs.Having.Lexeme
import TelemetryQuery.Proofs.Having.Piece
/- Rendered conditions on results are read as the conditions that were rendered. -/
namespace TelemetryQuery.Having

open Filter (joinWith_cons)

variable {c : Char} {kind : Kind} {rest chars : List Char}

/-- Text that ends each token before it: nothing, or what starts with one of the characters that
rendering puts behind names, numbers and quoted text. -/
def Closes (rest : List Char) : Prop :=
  ∀ c ∈ rest.head?, c ∈ [' ', '(', ')', ',']

theorem closes_nil : Closes [] :=
  nofun

theorem closes_cons (mem : c ∈ [' ', '(', ')', ',']) (rest : List Char) : Closes (c :: rest) := by
  intro d head
  cases head
  exact mem

theorem Closes.head (closes : Closes rest) {p : Char → Bool}
    (all : [' ', '(', ')', ','].all p = true) : ∀ c ∈ rest.head?, p c = true :=
  fun c head => List.all_eq_true.1 all c (closes c head)

theorem Closes.endsNumber (closes : Closes rest) : EndsNumber rest := by
  intro c head
  have ends := closes.head (p := fun c => !c.isDigit && c != '.' && c != 'e' && c != 'E')
    (by decide) c head
  simpa [and_assoc] using ends

theorem Closes.endsWord (closes : Closes rest) : rest.head?.any continuesIdentifier = false := by
  rw [Option.any_eq_false]
  intro c head
  have ends := closes.head (p := fun c => !continuesIdentifier c) (by decide +kernel) c head
  simpa using ends

theorem Closes.alone (closes : Closes rest) (c : Char) :
    ∀ d ∈ rest.head?, doubleMarkKind? c d = none := by
  intro d head
  have ends := closes.head (p := fun d => d != '=' && d != '>') (by decide) d head
  fun_cases doubleMarkKind? c d <;> simp at ends ⊢

theorem Starts.quotedLength {text : List Char} {n : Nat} (starts : Starts c text kind n)
    (quoted : kind = .quotedText) :
    (c = '\'' ∨ c = '"') ∧ ∃ m, Text.quotedLength? c text = some m ∧ n = 1 + m := by
  cases starts with
  | double double => simpa [quoted, Kind.isMark] using doubleMarkKind?_isMark double
  | single _ single => simpa [quoted, Kind.isMark] using markKind?_isMark single
  | quoted quote closed => exact ⟨quote, _, closed, rfl⟩
  | number => cases quoted
  | word =>
    have word := Kind.ofWord_isWord (String.ofList (c :: text.takeWhile continuesIdentifier))
    rw [quoted] at word
    cases word

/-- A quoted text is one whatever follows it. -/
theorem token_of_quoted {other : List Char}
    (token : tokenAt? (chars ++ rest) = some (.quotedText, chars.length)) :
    tokenAt? (chars ++ other) = some (.quotedText, chars.length) := by
  cases chars with
  | nil =>
    cases rest with
    | nil => cases token
    | cons c rest => exact absurd (tokenAt?_eq_some.1 token).bounded.1 (Nat.lt_irrefl 0)
  | cons c more =>
    obtain ⟨quote, length, closed, size⟩ := (tokenAt?_eq_some.1 token).quotedLength rfl
    have size : length = more.length := by
      rw [List.length_cons] at size
      omega
    have plain : c ≠ '\\' := by
      rintro rfl
      simp at quote
    have within := Filter.quotedLength?_cut plain closed (Nat.le_of_eq size)
    have starts := Starts.quoted quote (Filter.quotedLength?_append plain within other)
    rw [size, Nat.add_comm] at starts
    exact tokenAt?_eq_some.2 starts

/-- A token of a text is one before any text that closes it. -/
theorem token_before {other : List Char}
    (token : tokenAt? (chars ++ rest) = some (kind, chars.length)) (closes : Closes other) :
    tokenAt? (chars ++ other) = some (kind, chars.length) := by
  cases tokenAt?_takes token with
  | mark _ mark =>
    rcases mark with ⟨c, rfl, single, -⟩ | ⟨c, d, rfl, double⟩
    · exact tokenAt?_eq_some.2 (.single (closes.alone c) single)
    · exact tokenAt?_eq_some.2 (.double double)
  | quoted => exact token_of_quoted token
  | number whole starts => exact token_of_number whole starts closes.endsNumber
  | word starts continues _ => exact token_of_word starts continues closes.endsWord

/-- A text without stray characters, and its words. -/
def Cuts (text : List Char) (words : List Word) : Prop :=
  ∃ ending lexemes, text = lay ending lexemes ∧ Laid ending lexemes ∧
    lexemes.map Lexeme.word = words

namespace Cuts

variable {text : List Char} {words : List Word}

theorem nil : Cuts [] [] :=
  ⟨[], [], rfl, blank_nil, rfl⟩

theorem space (cuts : Cuts text words) : Cuts (' ' :: text) words := by
  obtain ⟨ending, lexemes, rfl, laid, rfl⟩ := cuts
  have blank : Text.isBlank ' ' = true := by decide
  cases lexemes with
  | nil => exact ⟨' ' :: ending, [], rfl, List.forall_mem_cons.2 ⟨blank, laid⟩, rfl⟩
  | cons lexeme rest =>
    refine ⟨ending, { lexeme with gap := ' ' :: lexeme.gap } :: rest, rfl, ?_, rfl⟩
    exact ⟨List.forall_mem_cons.2 ⟨blank, laid.1⟩, laid.2⟩

theorem token (solid : chars.head?.any (!Text.isBlank ·) = true)
    (token : tokenAt? (chars ++ text) = some (kind, chars.length)) (cuts : Cuts text words) :
    Cuts (chars ++ text) (.ofText kind (String.ofList chars) :: words) := by
  obtain ⟨ending, lexemes, rfl, laid, rfl⟩ := cuts
  exact ⟨ending, ⟨[], kind, chars⟩ :: lexemes, rfl, ⟨blank_nil, solid, token, laid⟩, rfl⟩

/-- The words of a text are those of its tokens. -/
theorem lexed (cuts : Cuts text words) (place : Text.Place) :
    (lexFrom place text).errors = [] ∧ (lexFrom place text).tokens.map Token.word = words := by
  obtain ⟨ending, lexemes, rfl, laid, rfl⟩ := cuts
  exact lexFrom_lay laid place

end Cuts

/-- A word whose text is a token of its kind before all that closes it. -/
def Word.Whole (word : Word) : Prop :=
  word.kind.isOpen = true →
    word.text.toList.head?.any (!Text.isBlank ·) = true ∧ ∀ rest, Closes rest →
      tokenAt? (word.text.toList ++ rest) = some (word.kind, word.text.toList.length)

theorem Laid.whole {ending : List Char} {lexemes : List Lexeme} (laid : Laid ending lexemes) :
    ∀ word ∈ lexemes.map Lexeme.word, word.Whole := by
  induction lexemes with
  | nil => exact nofun
  | cons lexeme rest ih =>
    obtain ⟨-, solid, token, laidRest⟩ := laid
    rw [List.map_cons, List.forall_mem_cons]
    refine ⟨?_, ih laidRest⟩
    intro opened
    have text : lexeme.word.text = String.ofList lexeme.chars := if_pos opened
    rw [text, String.toList_ofList]
    exact ⟨solid, fun _ closes => token_before token closes⟩

/-- Text that is cut into the given words wherever it stands before what closes it. -/
def Writes (text : String) (words : List Word) : Prop :=
  ∀ rest after, Closes rest → Cuts rest after → Cuts (text.toList ++ rest) (words ++ after)

/-- Text that is cut into the given words whatever follows. -/
def Opens (text : String) (words : List Word) : Prop :=
  ∀ rest after, Cuts rest after → Cuts (text.toList ++ rest) (words ++ after)

section Text

variable {a b s : String} {u v w : List Word}

theorem Opens.append (first : Opens a v) (second : Opens b w) : Opens (a ++ b) (v ++ w) := by
  intro rest after cuts
  rw [String.toList_append, List.append_assoc, List.append_assoc]
  exact first _ _ (second rest after cuts)

theorem Opens.before (first : Opens a v) (second : Writes b w) : Writes (a ++ b) (v ++ w) := by
  intro rest after closes cuts
  rw [String.toList_append, List.append_assoc, List.append_assoc]
  exact first _ _ (second rest after closes cuts)

/-- Behind text that must be closed stands one that closes it. -/
theorem Writes.opens (first : Writes a v) (second : Opens s u) (closes : Closes s.toList)
    (nonempty : s.toList ≠ []) : Opens (a ++ s) (v ++ u) := by
  intro rest after cuts
  rw [String.toList_append, List.append_assoc, List.append_assoc]
  apply first _ _ ?_ (second rest after cuts)
  cases split : s.toList with
  | nil => exact absurd split nonempty
  | cons c more =>
    rw [split] at closes
    exact closes_cons (closes c rfl) _

theorem Opens.writes (opens : Opens a v) : Writes a v :=
  fun rest after _ cuts => opens rest after cuts

theorem Word.Whole.writes {word : Word} (whole : word.Whole) (opened : word.kind.isOpen = true) :
    Writes word.text [word] := by
  intro rest after closes cuts
  obtain ⟨solid, token⟩ := whole opened
  have cut := Cuts.token solid (token rest closes) cuts
  rw [String.ofList_toList, Word.ofText, if_pos opened] at cut
  exact cut

theorem Writes.fixed (token : tokenAt? a.toList = some (kind, a.toList.length))
    (closed : kind.isOpen = false) (solid : a.toList.head?.any (!Text.isBlank ·) = true) :
    Writes a [.fixed kind] := by
  intro rest after closes cuts
  have alone : tokenAt? (a.toList ++ []) = some (kind, a.toList.length) := by
    rw [List.append_nil]
    exact token
  have cut := Cuts.token solid (token_before alone closes) cuts
  rw [Word.ofText, closed] at cut
  exact cut

/-- A kind that fixes its text is named by that text. -/
theorem Writes.friendly (kind : Kind) (closed : kind.isOpen = false) (shown : kind ≠ .eof) :
    Writes kind.friendly [.fixed kind] := by
  cases kind with
  | comparison op | arithmetic op => cases op <;> exact .fixed (by decide +kernel) rfl (by decide)
  | bool | number | quotedText | identifier => cases closed
  | eof => exact absurd rfl shown
  | _ => exact .fixed (by decide +kernel) rfl (by decide)

theorem opens_space : Opens " " [] :=
  fun _ _ cuts => cuts.space

/-- The marks that start no longer one need no blank behind them. -/
theorem opens_mark (single : markKind? c = some kind) (lone : c ∈ ['(', ')', ',', '+', '-'])
    (chars : a.toList = [c]) : Opens a [.fixed kind] := by
  have alone (d : Char) : doubleMarkKind? c d = none := by
    fun_cases doubleMarkKind? c d <;> simp at lone ⊢
  have solid : Text.isBlank c = false := by
    have all : markChars.all (fun c => !Text.isBlank c) = true := by decide
    simpa using mark_all all (markKind?_mem single)
  have closed : kind.isOpen = false := by
    have mark := markKind?_isMark single
    revert mark
    cases kind <;> simp [Kind.isMark, Kind.isOpen]
  intro rest after cuts
  have token : tokenAt? ([c] ++ rest) = some (kind, 1) :=
    tokenAt?_eq_some.2 (.single (fun d _ => alone d) single)
  have cut := Cuts.token (by simpa using solid) token cuts
  rw [Word.ofText, closed] at cut
  rw [chars]
  exact cut

/-- An operator or a connective with a blank on each side. -/
theorem Writes.spaced (written : Writes s u) : Opens (" " ++ s ++ " ") u := by
  have opens := opens_space.append (written.opens opens_space (closes_cons (by decide) []) nofun)
  rw [String.append_assoc]
  simpa using opens

/-- Two parts with an operator or a connective between them. -/
theorem Writes.between (first : Writes a v) (written : Writes s u) (second : Writes b w) :
    Writes (a ++ " " ++ s ++ " " ++ b) (v ++ (u ++ w)) := by
  have closes : Closes (" " ++ s ++ " ").toList := by
    rw [String.toList_append, String.toList_append]
    exact closes_cons (by decide) _
  have joined := (first.opens written.spaced closes (by simp)).before second
  simpa [String.append_assoc] using joined

end Text

theorem opens_lparen : Opens "(" [.fixed .lparen] :=
  opens_mark (c := '(') rfl (by decide) rfl

theorem opens_rparen : Opens ")" [.fixed .rparen] :=
  opens_mark (c := ')') rfl (by decide) rfl

theorem opens_comma : Opens ", " [.fixed .comma] := by
  have comma : Opens "," [.fixed .comma] :=
    opens_mark (c := ',') rfl (by decide) rfl
  -- Against the literal it would be elaborated by taking the literal apart.
  have spaced := comma.append opens_space
  exact spaced

theorem opens_sign (negative : Bool) :
    Opens (signText negative) [.fixed (.arithmetic (signOperator negative))] := by
  cases negative with
  | false => exact opens_mark (c := '+') rfl (by decide) rfl
  | true => exact opens_mark (c := '-') rfl (by decide) rfl

theorem Writes.closed {text : String} {words : List Word} (written : Writes text words) :
    Opens (text ++ ")") (words ++ [Word.fixed .rparen]) :=
  written.opens opens_rparen (closes_cons (by decide) []) nofun

theorem Writes.parens {text : String} {words : List Word} (written : Writes text words) :
    Writes ("(" ++ text ++ ")") (.fixed .lparen :: words ++ [Word.fixed .rparen]) := by
  rw [String.append_assoc]
  exact opens_lparen.before written.closed.writes

theorem Arithmetic.writes (op : Arithmetic) : Writes op.text [.fixed (.arithmetic op)] :=
  .friendly (.arithmetic op) rfl (by simp)

theorem Comparison.writes (op : Comparison) : Writes op.text [.fixed (.comparison op)] :=
  .friendly (.comparison op) rfl (by simp)

def Phrase.text : Phrase → String
  | .factor part | .term part | .operand part => part.render
  | .arguments operands => Text.joinWith ", " (renderOperands operands) ++ ")"
  | .primary expr => expr.render
  | .conjuncts exprs => Text.joinWith " AND " (renderExprs exprs)
  | .branches exprs => Text.joinWith " OR " (renderExprs exprs)

theorem render_collapse_and (exprs : List Expr) :
    (collapse .and exprs).render = Text.joinWith " AND " (renderExprs exprs) := by
  fun_cases collapse Expr.and exprs with
  | case1 expr => rfl
  | case2 => rw [Expr.render]

theorem render_collapse_or (exprs : List Expr) :
    (collapse .or exprs).render = Text.joinWith " OR " (renderExprs exprs) := by
  fun_cases collapse Expr.or exprs with
  | case1 expr => rfl
  | case2 => rw [Expr.render]

theorem renderExprs_ne_nil {exprs : List Expr} (nonempty : exprs ≠ []) :
    renderExprs exprs ≠ [] := by
  cases exprs with
  | nil => exact absurd rfl nonempty
  | cons expr rest => exact nofun

theorem renderOperands_ne_nil {operands : List Operand} (nonempty : operands ≠ []) :
    renderOperands operands ≠ [] := by
  cases operands with
  | nil => exact absurd rfl nonempty
  | cons operand rest => exact nofun

/-- What is spelled by whole words is written as its text. -/
theorem Spells.writes {phrase : Phrase} {words : List Word} (spell : Spells phrase words)
    (whole : ∀ word ∈ words, word.Whole) : Writes phrase.text words := by
  induction spell with
  | number | quoted | identifier => exact (List.forall_mem_singleton.1 whole).writes rfl
  | @signed negative operand words _ ih =>
    rw [Phrase.text, Operand.render]
    exact (opens_sign negative).before (ih fun word mem => whole word (by simp [mem]))
  | paren _ ih =>
    rw [Phrase.text, Operand.render]
    exact (ih fun word mem => whole word (by simp [mem])).parens
  | @bareCall name =>
    have named := (List.forall_mem_cons.1 whole).1.writes rfl
    have opening := named.opens opens_lparen (closes_cons (by decide) []) (by simp)
    have called := opening.append opens_rparen
    rw [Phrase.text, Operand.render, renderOperands, Text.joinWith, String.append_empty]
    exact called.writes
  | @call name operands words _ ih =>
    have named := (List.forall_mem_cons.1 whole).1.writes rfl
    have opening := named.opens opens_lparen (closes_cons (by decide) []) (by simp)
    have called := opening.before (ih fun word mem => whole word (by simp [mem]))
    rw [Phrase.text, Operand.render, String.append_assoc]
    exact called
  | lastArgument _ ih =>
    exact (ih fun word mem => whole word (by simp [mem])).closed.writes
  | @argument operand operands first rest _ spellRest ihFirst ihRest =>
    have opening := (ihFirst fun word mem => whole word (by simp [mem])).opens opens_comma
      (closes_cons (by decide) _) (by simp)
    have written := opening.before (ihRest fun word mem => whole word (by simp [mem]))
    rw [Phrase.text, renderOperands, joinWith_cons _ _ (renderOperands_ne_nil spellRest.hasParts),
      String.append_assoc]
    rw [List.append_assoc] at written
    exact written
  | ofFactor _ ih | ofTerm _ ih => exact ih whole
  | @product left right op _ _ _ _ _ ihFirst ihRest | @sum left right op _ _ _ _ _ ihFirst ihRest =>
    rw [Phrase.text, Operand.render]
    exact (ihFirst fun word mem => whole word (by simp [mem])).between op.writes
      (ihRest fun word mem => whole word (by simp [mem]))
  | @comparison left right op _ _ _ _ ihFirst ihRest =>
    rw [Phrase.text, Expr.render]
    exact (ihFirst fun word mem => whole word (by simp [mem])).between op.writes
      (ihRest fun word mem => whole word (by simp [mem]))
  | group _ ih =>
    rw [Phrase.text, Expr.render, render_collapse_or]
    exact (ih fun word mem => whole word (by simp [mem])).parens
  | not _ ih =>
    have negation : Writes "NOT" [.fixed .not] := .friendly .not rfl (by simp)
    have opening :=
      negation.opens (opens_space.append opens_lparen) (closes_cons (by decide) _) (by simp)
    rw [Phrase.text, Expr.render, render_collapse_or, String.append_assoc]
    exact opening.before (ih fun word mem => whole word (by simp [mem])).closed.writes
  | lone _ ih => exact ih whole
  | @both expr exprs _ _ _ spellRest ihFirst ihRest =>
    have and : Writes "AND" [.fixed .and] := .friendly .and rfl (by simp)
    have written := (ihFirst fun word mem => whole word (by simp [mem])).between and
      (ihRest fun word mem => whole word (by simp [mem]))
    rw [Phrase.text, renderExprs, joinWith_cons _ _ (renderExprs_ne_nil spellRest.hasParts)]
    simpa [Phrase.text, String.append_assoc] using written
  | only _ ih =>
    rw [Phrase.text, renderExprs, renderExprs, Text.joinWith, render_collapse_and]
    exact ih whole
  | @either exprs others _ _ _ spellRest ihFirst ihRest =>
    have or : Writes "OR" [.fixed .or] := .friendly .or rfl (by simp)
    have written := (ihFirst fun word mem => whole word (by simp [mem])).between or
      (ihRest fun word mem => whole word (by simp [mem]))
    rw [Phrase.text, renderExprs, joinWith_cons _ _ (renderExprs_ne_nil spellRest.hasParts),
      render_collapse_and]
    simpa [Phrase.text, String.append_assoc] using written

/-- The words of a text without stray characters are whole. -/
theorem whole_of_clean {text : String} (clean : (lex text).errors = []) :
    ∀ word ∈ (lex text).tokens.map Token.word, word.Whole := by
  obtain ⟨ending, lexemes, -, laid, words⟩ := laid_of_lexFrom .start text.toList clean
  have same : (lex text).tokens.map Token.word = lexemes.map Lexeme.word := words
  rw [same]
  exact laid.whole

/-- A condition that was read is read again from its text. -/
theorem parse_rendered {text : String} {expr : Expr} (parsed : parse text = .ok (some expr)) :
    parse expr.render = .ok (some expr) := by
  obtain ⟨clean, exprs, rfl, spells⟩ := parse_sound parsed
  have written := spells.writes (whole_of_clean clean) [] [] closes_nil .nil
  rw [List.append_nil, List.append_nil, Phrase.text, ← render_collapse_or] at written
  obtain ⟨cleanText, words⟩ := written.lexed .start
  refine parse_complete cleanText ⟨exprs, rfl, ?_⟩
  have same : (lex (collapse .or exprs).render).tokens.map Token.word =
    (lex text).tokens.map Token.word := words
  rw [same]
  exact spells

/-- Chains of signs, a number that ends in its point, brackets of both kinds and escaped quotes. -/
theorem parse_rendered_signs :
    let text := "(a)- -1.*+(.5e3)==f ( 'it\\'s', \"x\" ,g( ) ) AND not((b<>2)or(3)%c>=4)"
    let rendered := "(a) - -1. * +(.5e3) = f('it\\'s', \"x\", g()) AND " ++
      "NOT ((b <> 2) OR (3) % c >= 4)"
    ∃ expr, parse text = .ok (some expr) ∧ expr.render = rendered ∧
      parse rendered = .ok (some expr) := by
  intro text rendered
  have shown : (parse text).toOption.join.map Expr.render = some rendered := by decide +kernel
  cases parsed : parse text with
  | error errors =>
    rw [parsed] at shown
    cases shown
  | ok read =>
    rw [parsed] at shown
    obtain ⟨expr, rfl, same⟩ := Option.map_eq_some_iff.1 shown
    exact ⟨expr, rfl, same, same ▸ parse_rendered parsed⟩

end TelemetryQuery.Having
