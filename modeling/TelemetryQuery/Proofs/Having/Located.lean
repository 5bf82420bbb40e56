import TelemetryQuery.Proofs.Having.Following
import TelemetryQuery.Proofs.Having.Written
/- Where a reference stands in the text of a condition. -/
namespace TelemetryQuery.Having

variable {kind : Kind} {chars rest : List Char} {lexemes : List Lexeme}

/-- Whether words of a kind show their characters: the kinds of the words of operands. -/
def Kind.isPlain : Kind → Bool
  | .identifier | .number | .quotedText | .lparen | .rparen | .comma | .arithmetic _ => true
  | _ => false

theorem Kind.isPlain_fixed (plain : kind.isPlain = true) (closed : kind.isOpen = false) :
    kind.isWord = false := by
  cases kind with
  | lparen | rparen | comma | arithmetic => rfl
  | identifier | number | quotedText => cases closed
  | _ => cases plain

theorem MarkChars.plain (mark : MarkChars kind chars rest) (plain : kind.isPlain = true) :
    chars = (Word.fixed kind).chars := by
  rcases mark with ⟨c, rfl, single, _⟩ | ⟨c, d, rfl, double⟩
  · revert single
    fun_cases markKind? c <;> rintro ⟨⟩ <;> first | rfl | cases plain
  · revert double
    fun_cases doubleMarkKind? c d <;> rintro ⟨⟩ <;> cases plain

theorem Word.chars_open (plain : kind.isPlain = true) (isOpen : kind.isOpen = true)
    (text : String) : (Word.ofText kind text).chars = text.toList := by
  cases kind with
  | identifier | number | quotedText => rfl
  | lparen | rparen | comma | arithmetic => cases isOpen
  | _ => cases plain

/-- The characters of the token of an operand are those of its word. -/
theorem Takes.plain (takes : Takes chars rest kind) (plain : kind.isPlain = true) :
    chars = (Word.ofText kind (String.ofList chars)).chars := by
  cases isOpen : kind.isOpen with
  | true => rw [Word.chars_open plain isOpen, String.toList_ofList]
  | false =>
    have notWord := Kind.isPlain_fixed plain isOpen
    cases takes with
    | mark _ mark =>
      rw [Word.ofText, isOpen]
      exact mark.plain plain
    | quoted => cases isOpen
    | number => cases isOpen
    | word =>
      rw [Kind.ofWord_isWord] at notWord
      cases notWord

theorem Takes.identifier (takes : Takes chars rest .identifier) :
    chars.head?.any startsIdentifier = true ∧ (∀ c ∈ chars, continuesIdentifier c = true) ∧
      rest.head?.any continuesIdentifier = false := by
  generalize same : Kind.identifier = kind at takes
  cases takes with
  | mark isMark _ => subst same; cases isMark
  | quoted => cases same
  | number => cases same
  | word starts continues stops => exact ⟨starts, continues, stops⟩

theorem Takes.unreserved (takes : Takes chars rest .identifier) :
    Kind.ofWord (String.ofList chars) = .identifier := by
  generalize same : Kind.identifier = kind at takes
  cases takes with
  | mark isMark _ => subst same; cases isMark
  | quoted => cases same
  | number => cases same
  | word => rfl

theorem Takes.number_eq (takes : Takes chars rest .number) :
    numberLength chars = chars.length ∧ startsNumber chars = true := by
  generalize same : Kind.number = kind at takes
  cases takes with
  | mark isMark _ => subst same; cases isMark
  | quoted => cases same
  | number whole starts => exact ⟨whole, starts⟩
  | word =>
    have isWord := Kind.ofWord_isWord (String.ofList chars)
    rw [← same] at isWord
    cases isWord

theorem Takes.lexical (takes : Takes chars rest kind) (unquoted : Unquoted chars) :
    (Word.ofText kind (String.ofList chars)).Lexical := by
  refine ⟨?_, ?_, ?_, ?_⟩
  · rintro rfl
    have text : (Word.ofText .identifier (String.ofList chars)).text = String.ofList chars := rfl
    rw [text, String.toList_ofList]
    exact ⟨takes.identifier.1, takes.identifier.2.1⟩
  · rintro rfl
    exact takes.unreserved
  · rintro rfl
    have text : (Word.ofText .number (String.ofList chars)).text = String.ofList chars := rfl
    rw [text, String.toList_ofList]
    exact takes.number_eq
  · rintro rfl
    generalize same : Kind.quotedText = kind at takes
    cases takes with
    | mark isMark _ => subst same; cases isMark
    | quoted mem quote => exact unquoted _ mem quote
    | number => cases same
    | word =>
      have isWord := Kind.ofWord_isWord (String.ofList chars)
      rw [← same] at isWord
      cases isWord

mutual

theorem Operand.plain_words : (operand : Operand) →
    ∀ word ∈ operand.words, word.kind.isPlain = true
  | .binary left op right => by
    rw [Operand.words, List.forall_mem_append, List.forall_mem_cons]
    exact ⟨left.plain_words, rfl, right.plain_words⟩
  | .signed negative operand => by
    rw [Operand.words, List.forall_mem_cons]
    exact ⟨rfl, operand.plain_words⟩
  | .paren inner => by
    rw [Operand.words, List.forall_mem_append, List.forall_mem_cons, List.forall_mem_singleton]
    exact ⟨⟨rfl, inner.plain_words⟩, rfl⟩
  | .call name arguments => by
    rw [Operand.words, List.forall_mem_cons, List.forall_mem_cons]
    exact ⟨rfl, rfl, plain_argumentWords arguments⟩
  | .identifier name => by
    rw [Operand.words, List.forall_mem_singleton]
    rfl
  | .number text => by
    rw [Operand.words, List.forall_mem_singleton]
    rfl
  | .quoted raw => by
    rw [Operand.words, List.forall_mem_singleton]
    rfl

theorem plain_argumentWords : (operands : List Operand) →
    ∀ word ∈ argumentWords operands, word.kind.isPlain = true
  | [] => by
    rw [argumentWords, List.forall_mem_singleton]
    rfl
  | [operand] => by
    rw [argumentWords, List.forall_mem_append, List.forall_mem_singleton]
    exact ⟨operand.plain_words, rfl⟩
  | operand :: second :: rest => by
    rw [argumentWords_cons _ (List.cons_ne_nil second rest), List.forall_mem_append,
      List.forall_mem_cons]
    exact ⟨operand.plain_words, rfl, plain_argumentWords (second :: rest)⟩

end

theorem strip_word {word : Word} (lexical : word.Lexical) (plain : word.kind.isPlain = true) :
    strip word.chars = word.chars := by
  obtain ⟨kind, text⟩ := word
  cases kind with
  | identifier => exact strip_solid (solid_of_continues (lexical.named rfl).2)
  | number => exact strip_solid (solid_of_number (lexical.number rfl).1)
  | quotedText => exact absurd rfl lexical.unquoted
  | lparen | rparen | comma => exact strip_mark (by decide) []
  | arithmetic op => exact strip_arithmetic op
  | _ => cases plain

variable {ending : List Char}

theorem Laid.append {first second : List Lexeme} (laid : Laid ending (first ++ second)) :
    Laid ending second ∧
      ∀ lexeme ∈ first, Blank lexeme.gap ∧ ∃ rest, Takes lexeme.chars rest lexeme.kind := by
  induction first with
  | nil => exact ⟨laid, List.forall_mem_nil _⟩
  | cons lexeme first ih =>
    obtain ⟨blank, _, token, others⟩ := laid
    obtain ⟨later, all⟩ := ih others
    exact ⟨later, List.forall_mem_cons.2 ⟨⟨blank, _, tokenAt?_takes token⟩, all⟩⟩

theorem mem_lay {lexeme : Lexeme} (mem : lexeme ∈ lexemes) {c : Char} (inside : c ∈ lexeme.chars) :
    c ∈ lay ending lexemes := by
  obtain ⟨first, second, rfl⟩ := List.append_of_mem mem
  rw [lay_append, lay]
  simp [inside]

/-- The lexemes of an operand show its words. -/
theorem plain_of_words {operand : Operand}
    (takes : ∀ lexeme ∈ lexemes, Blank lexeme.gap ∧ ∃ rest, Takes lexeme.chars rest lexeme.kind)
    (words : lexemes.map Lexeme.word = operand.words) : Plain lexemes := by
  intro lexeme mem
  obtain ⟨blank, rest, takes⟩ := takes lexeme mem
  refine ⟨blank, takes.plain ?_⟩
  exact operand.plain_words lexeme.word (by rw [← words]; exact List.mem_map_of_mem mem)

theorem strip_lay (plain : Plain lexemes)
    (solid : ∀ lexeme ∈ lexemes, strip lexeme.word.chars = lexeme.word.chars) :
    strip (lay [] lexemes) = tight (lexemes.map Lexeme.word) := by
  induction lexemes with
  | nil => rfl
  | cons lexeme rest ih =>
    obtain ⟨⟨blank, same⟩, others⟩ := List.forall_mem_cons.1 plain
    obtain ⟨first, later⟩ := List.forall_mem_cons.1 solid
    rw [lay, strip_append, strip_append, strip_blank blank, same, first, ih others later,
      List.map_cons, tight_cons]
    rfl

/-- A reference of a condition stands in its text, whatever the blanks. -/
theorem reference_within {pieces : List Piece} {operand : Operand} (laid : Laid ending lexemes)
    (unquoted : Unquoted (lay ending lexemes)) (words : lexemes.map Lexeme.word = wordsOf pieces)
    (mem : .reference operand ∈ pieces) :
    (∀ word ∈ operand.words, word.Lexical) ∧
      strip operand.render.toList <:+: strip (lay ending lexemes) := by
  obtain ⟨before, after, rfl⟩ := List.append_of_mem mem
  rw [wordsOf_append, wordsOf_cons] at words
  obtain ⟨first, others, rfl, _, words⟩ := List.map_eq_append_iff.1 words
  obtain ⟨own, last, rfl, words, _⟩ := List.map_eq_append_iff.1 words
  have takes := laid.append.1.append.2
  have lexical : ∀ lexeme ∈ own, lexeme.word.Lexical := by
    intro lexeme mem
    obtain ⟨_, rest, takes⟩ := takes lexeme mem
    refine takes.lexical fun c inside => unquoted c ?_
    exact mem_lay (List.mem_append_right first (List.mem_append_left last mem)) inside
  have all : ∀ word ∈ operand.words, word.Lexical := by
    intro word mem
    rw [show operand.words = own.map Lexeme.word from words.symm] at mem
    obtain ⟨lexeme, inside, rfl⟩ := List.mem_map.1 mem
    exact lexical lexeme inside
  have shown : strip (lay [] own) = tight (own.map Lexeme.word) := by
    refine strip_lay (plain_of_words takes words) fun lexeme mem => ?_
    refine strip_word (lexical lexeme mem) (operand.plain_words _ ?_)
    rw [show operand.words = own.map Lexeme.word from words.symm]
    exact List.mem_map_of_mem mem
  refine ⟨all, ?_⟩
  rw [operand.strip_render all, show operand.words = own.map Lexeme.word from words.symm, ← shown,
    lay_append, lay_append, strip_append, strip_append, ← List.append_assoc]
  exact List.infix_append _ _ _

end TelemetryQuery.Having
