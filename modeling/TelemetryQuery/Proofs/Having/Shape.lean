import TelemetryQuery.Proofs.Filter.Printer
import TelemetryQuery.Proofs.Having.Lexeme
import TelemetryQuery.Proofs.Having.Piece
/- References of a plain shape: names, and calls whose arguments are such references. -/
namespace TelemetryQuery.Having

open Filter (joinWith_cons)

variable {text : List Char} {name : String}

/-- An ASCII identifier that is no reserved word in any case. -/
def isName (name : String) : Bool :=
  name.toList.head?.any startsIdentifier && name.toList.all continuesIdentifier &&
    name.toList.all (·.toNat < 128) && Kind.ofWord name = .identifier

mutual

/-- Whether an operand is a name, or a call whose arguments are such operands. -/
def Operand.isShaped : Operand → Bool
  | .identifier name => isName name
  | .call name arguments => isName name && allShaped arguments
  | _ => false

def allShaped : List Operand → Bool
  | [] => true
  | operand :: rest => operand.isShaped && allShaped rest

end

/-- A text that refers to a result in the plain way: it renders a shaped operand. -/
def IsKey (text : String) : Prop :=
  ∃ operand : Operand, operand.isShaped = true ∧ text = operand.render

structure NameChars (chars : List Char) : Prop where
  starts : chars.head?.any startsIdentifier = true
  continues : ∀ c ∈ chars, continuesIdentifier c = true
  ascii : ∀ c ∈ chars, c.toNat < 128

theorem isName_chars (named : isName name = true) : NameChars name.toList := by
  simp only [isName, Bool.and_eq_true, List.all_eq_true, decide_eq_true_eq] at named
  exact ⟨named.1.1.1, named.1.1.2, named.1.2⟩

theorem isName_kind (named : isName name = true) : Kind.ofWord name = .identifier := by
  rw [isName, Bool.and_eq_true, decide_eq_true_eq] at named
  exact named.2

theorem isName_of_chars (chars : NameChars name.toList) (kind : Kind.ofWord name = .identifier) :
    isName name = true := by
  simp only [isName, Bool.and_eq_true, List.all_eq_true, decide_eq_true_eq]
  exact ⟨⟨⟨chars.starts, chars.continues⟩, chars.ascii⟩, kind⟩

theorem NameChars.cons {chars : List Char} (named : NameChars chars) :
    ∃ c more, chars = c :: more ∧ startsIdentifier c = true := by
  cases chars with
  | nil => exact absurd named.starts (by simp)
  | cons c more => exact ⟨c, more, rfl, named.starts⟩

/-- The characters of a word of an operand. -/
def Word.chars (word : Word) : List Char :=
  match word.kind with
  | .lparen => ['(']
  | .rparen => [')']
  | .comma => [',']
  | .arithmetic op => op.text.toList
  | _ => word.text.toList

/-- The text of some words with nothing between them. -/
def tight (words : List Word) : List Char :=
  words.flatMap Word.chars

@[simp]
theorem tight_nil : tight [] = [] :=
  rfl

@[simp]
theorem tight_cons (word : Word) (words : List Word) :
    tight (word :: words) = word.chars ++ tight words :=
  rfl

@[simp]
theorem tight_append (first second : List Word) :
    tight (first ++ second) = tight first ++ tight second :=
  List.flatMap_append

def strip (text : List Char) : List Char :=
  text.filter (!Text.isBlank ·)

@[simp]
theorem strip_nil : strip [] = [] :=
  rfl

@[simp]
theorem strip_append (first second : List Char) :
    strip (first ++ second) = strip first ++ strip second :=
  List.filter_append ..

theorem strip_blank (blank : Blank text) : strip text = [] := by
  rw [strip, List.filter_eq_nil_iff]
  intro c mem
  simp [blank c mem]

theorem strip_solid (solid : ∀ c ∈ text, Text.isBlank c = false) : strip text = text := by
  rw [strip, List.filter_eq_self]
  intro c mem
  simp [solid c mem]

theorem solid_of_continues (continues : ∀ c ∈ text, continuesIdentifier c = true) (c : Char)
    (mem : c ∈ text) : Text.isBlank c = false := by
  by_contra blank
  have stops := continuesIdentifier_blank (by simpa using blank)
  rw [continues c mem] at stops
  cases stops

/-- The words that a lexer can find in a text without quotes. -/
structure Word.Lexical (word : Word) : Prop where
  named : word.kind = .identifier → word.text.toList.head?.any startsIdentifier = true ∧
    ∀ c ∈ word.text.toList, continuesIdentifier c = true
  unreserved : word.kind = .identifier → Kind.ofWord word.text = .identifier
  number : word.kind = .number → numberLength word.text.toList = word.text.toList.length ∧
    startsNumber word.text.toList = true
  unquoted : word.kind ≠ .quotedText

theorem lexical_fixed {kind : Kind} (closed : kind.isOpen = false) :
    (Word.fixed kind).Lexical := by
  constructor <;> (rintro rfl; cases closed)

/-- The characters of a number are digits, its point, and the mark and sign of its exponent. -/
theorem number_chars {chars : List Char} (whole : numberLength chars = chars.length) (c : Char)
    (mem : c ∈ chars) : c.isDigit = true ∨ c ∈ ['.', 'e', 'E', '+', '-'] := by
  obtain ⟨digits, fraction, exponent, rfl, parts⟩ := number_parts whole
  rw [List.mem_append, List.mem_append] at mem
  rcases mem with mem | mem | mem
  · exact .inl (parts.whole c mem)
  · rcases parts.fraction with rfl | ⟨more, rfl, all⟩
    · cases mem
    · rcases List.mem_cons.1 mem with rfl | mem
      · exact .inr (by simp)
      · exact .inl (all c mem)
  · rcases parts.exponent with rfl | ⟨mark, sign, more, rfl, isMark, isSign, all⟩
    · cases mem
    · rcases List.mem_cons.1 mem with rfl | mem
      · rcases isMark with rfl | rfl <;> exact .inr (by simp)
      · rcases List.mem_append.1 mem with mem | mem
        · rcases isSign with rfl | rfl | rfl <;> simp at mem <;> exact .inr (by simp [mem])
        · exact .inl (all c mem)

theorem solid_of_number {chars : List Char} (whole : numberLength chars = chars.length) (c : Char)
    (mem : c ∈ chars) : Text.isBlank c = false := by
  rcases number_chars whole c mem with digit | mark
  · have all : ((List.range 128).map Char.ofNat).all
        (fun c => !c.isDigit || !Text.isBlank c) = true := by decide +kernel
    simpa [digit] using ascii_all all (ascii_of_isDigit digit)
  · have all : ['.', 'e', 'E', '+', '-'].all (!Text.isBlank ·) = true := by decide
    simpa using List.all_eq_true.1 all c mark

theorem strip_arithmetic (op : Arithmetic) : strip op.text.toList = op.text.toList := by
  cases op <;> decide

theorem signText_eq (negative : Bool) : signText negative = (signOperator negative).text := by
  cases negative <;> rfl

mutual

/-- The text of an operand without its blanks is that of its words. -/
theorem Operand.strip_render : (operand : Operand) → (∀ word ∈ operand.words, word.Lexical) →
    strip operand.render.toList = tight operand.words
  | .binary left op right, lexical => by
    rw [Operand.words, List.forall_mem_append, List.forall_mem_cons] at lexical
    have first := left.strip_render lexical.1
    have second := right.strip_render lexical.2.2
    have blank : strip " ".toList = [] := by decide
    simp only [Operand.render, Operand.words, String.toList_append, strip_append, first, second,
      blank, strip_arithmetic, tight_append, tight_cons, List.append_assoc]
    rfl
  | .signed negative operand, lexical => by
    rw [Operand.words, List.forall_mem_cons] at lexical
    simp only [Operand.render, Operand.words, String.toList_append, strip_append, signText_eq,
      strip_arithmetic, operand.strip_render lexical.2, tight_cons]
    rfl
  | .paren inner, lexical => by
    rw [Operand.words, List.forall_mem_append, List.forall_mem_cons] at lexical
    have opening : strip "(".toList = ['('] := by decide
    have closing : strip ")".toList = [')'] := by decide
    simp only [Operand.render, Operand.words, String.toList_append, strip_append, opening, closing,
      inner.strip_render lexical.1.2, tight_append, tight_cons]
    rfl
  | .call name arguments, lexical => by
    rw [Operand.words, List.forall_mem_cons, List.forall_mem_cons] at lexical
    have opening : strip "(".toList = ['('] := by decide
    have solid := strip_solid (solid_of_continues (lexical.1.named rfl).2)
    have inner := strip_arguments arguments lexical.2.2
    rw [strip_append] at inner
    simp only [Operand.render, Operand.words, String.toList_append, strip_append, opening,
      List.append_assoc, tight_cons, solid, ← inner]
    rfl
  | .identifier name, lexical => by
    rw [Operand.words, List.forall_mem_singleton] at lexical
    have solid := strip_solid (solid_of_continues (lexical.named rfl).2)
    rw [Operand.render, Operand.words, solid, tight_cons, tight_nil, List.append_nil]
    rfl
  | .number text, lexical => by
    rw [Operand.words, List.forall_mem_singleton] at lexical
    have solid := strip_solid (solid_of_number (lexical.number rfl).1)
    rw [Operand.render, Operand.words, solid, tight_cons, tight_nil, List.append_nil]
    rfl
  | .quoted raw, lexical => by
    rw [Operand.words, List.forall_mem_singleton] at lexical
    exact absurd rfl lexical.unquoted

theorem strip_arguments : (operands : List Operand) →
    (∀ word ∈ argumentWords operands, word.Lexical) →
    strip ((Text.joinWith ", " (renderOperands operands)).toList ++ [')']) =
      tight (argumentWords operands)
  | [], lexical => by
    simp only [renderOperands, Text.joinWith, argumentWords]
    decide
  | [operand], lexical => by
    rw [argumentWords, List.forall_mem_append] at lexical
    have closing : strip [')'] = [')'] := by decide
    simp only [renderOperands, Text.joinWith, argumentWords, strip_append, closing, tight_append,
      operand.strip_render lexical.1]
    rfl
  | operand :: second :: rest, lexical => by
    rw [argumentWords_cons _ (List.cons_ne_nil second rest), List.forall_mem_append,
      List.forall_mem_cons] at lexical
    have comma : strip ", ".toList = [','] := by decide
    have tail := strip_arguments (second :: rest) lexical.2.2
    rw [argumentWords_cons _ (List.cons_ne_nil second rest), renderOperands,
      joinWith_cons _ _ (by simp [renderOperands])]
    simp only [String.toList_append, strip_append, comma, operand.strip_render lexical.1,
      tight_append, tight_cons, List.append_assoc, ← tail]
    rfl

end

/-- Two texts that agree up to the end of their runs of some characters have the same run. -/
theorem run_unique {p : Char → Bool} {first second rest other : List Char}
    (firstAll : ∀ c ∈ first, p c = true) (secondAll : ∀ c ∈ second, p c = true)
    (restStops : rest.head?.any p = false) (otherStops : other.head?.any p = false)
    (same : first ++ rest = second ++ other) : first = second ∧ rest = other := by
  have run : ∀ (run after : List Char), (∀ c ∈ run, p c = true) → after.head?.any p = false →
      (run ++ after).takeWhile p = run := by
    intro run after all stops
    rw [List.takeWhile_append_of_pos all]
    cases after with
    | nil => simp
    | cons c after => rw [List.takeWhile_cons_of_neg (by simpa using stops), List.append_nil]
  have equal : first = second := by
    rw [← run first rest firstAll restStops, same, run second other secondAll otherStops]
  subst equal
  exact ⟨rfl, List.append_cancel_left same⟩

theorem stops_mark {c : Char} (mark : c ∈ markChars) (rest : List Char) :
    (c :: rest).head?.any continuesIdentifier = false := by
  rw [List.head?_cons, Option.any_some, continuesIdentifier_mark mark]

/-- The text that may follow an operand. -/
def FollowsOperand (rest : List Char) : Prop :=
  rest.head?.any continuesIdentifier = false ∧ rest.head? ≠ some '('

/-- The text that may follow an argument. -/
def FollowsArgument (rest : List Char) : Prop :=
  ∀ c ∈ rest.head?, c = ',' ∨ c = ')'

theorem FollowsArgument.followsOperand {rest : List Char} (follows : FollowsArgument rest) :
    FollowsOperand rest := by
  cases rest with
  | nil => exact ⟨rfl, by simp⟩
  | cons c rest =>
    rcases follows c rfl with rfl | rfl
    · exact ⟨stops_mark (by decide) rest, by simp⟩
    · exact ⟨stops_mark (by decide) rest, by simp⟩

theorem followsArgument_comma (rest : List Char) : FollowsArgument (',' :: rest) := by
  rintro _ ⟨⟩
  exact .inl rfl

theorem followsArgument_closing (rest : List Char) : FollowsArgument (')' :: rest) := by
  rintro _ ⟨⟩
  exact .inr rfl

theorem arithmetic_chars (op : Arithmetic) :
    ∃ c ∈ markChars, op.text.toList = [c] ∧ c ≠ '(' ∧ c ≠ ',' ∧ c ≠ ')' := by
  cases op <;> exact ⟨_, by decide, rfl, by decide⟩

/-- An operator follows an operand, and not an argument. -/
theorem followsOperand_arithmetic (op : Arithmetic) (rest : List Char) :
    FollowsOperand (op.text.toList ++ rest) ∧ ¬FollowsArgument (op.text.toList ++ rest) := by
  obtain ⟨c, mark, chars, opening, comma, closing⟩ := arithmetic_chars op
  rw [chars]
  refine ⟨⟨stops_mark mark rest, by simpa using opening⟩, ?_⟩
  intro follows
  rcases follows c rfl with same | same
  · exact comma same
  · exact closing same

/-- The text of the words of a shaped operand starts as a name does. -/
theorem Operand.starts_of_isShaped {shaped : Operand} (isShaped : shaped.isShaped = true)
    {c : Char} {other : List Char} (same : c :: text = tight shaped.words ++ other) :
    startsIdentifier c = true := by
  have starts : ∀ {name : String} {more : List Char}, isName name = true →
      c :: text = name.toList ++ more → startsIdentifier c = true := by
    intro name more named same
    obtain ⟨d, chars, split, starts⟩ := (isName_chars named).cons
    rw [split] at same
    rw [(List.cons.inj same).1]
    exact starts
  cases shaped with
  | identifier name =>
    rw [Operand.isShaped] at isShaped
    rw [Operand.words, tight_cons, List.append_assoc] at same
    exact starts isShaped same
  | call name arguments =>
    rw [Operand.isShaped, Bool.and_eq_true] at isShaped
    rw [Operand.words, tight_cons, List.append_assoc] at same
    exact starts isShaped.1 same
  | _ => cases isShaped

theorem tight_call (name : String) (arguments : List Operand) (rest : List Char) :
    tight (Operand.call name arguments).words ++ rest =
      name.toList ++ ('(' :: (tight (argumentWords arguments) ++ rest)) := by
  rw [Operand.words, tight_cons, tight_cons, List.append_assoc]
  rfl

theorem tight_identifier (name : String) (rest : List Char) :
    tight (Operand.identifier name).words ++ rest = name.toList ++ rest := by
  rw [Operand.words, tight_cons, tight_nil, List.append_nil]
  rfl

theorem words_subset_arguments {operand : Operand} {operands : List Operand} {word : Word}
    (mem : word ∈ operand.words) : word ∈ argumentWords (operand :: operands) := by
  cases operands with
  | nil =>
    rw [argumentWords]
    exact List.mem_append_left _ mem
  | cons next others =>
    rw [argumentWords_cons _ (List.cons_ne_nil next others)]
    exact List.mem_append_left _ mem

/-- The text of an operand starts with a character, and not with a closing bracket. -/
theorem Operand.head_of_lexical (operand : Operand)
    (lexical : ∀ word ∈ operand.words, word.Lexical) :
    ∃ c text, tight operand.words = c :: text ∧ c ≠ ')' := by
  have named : ∀ {chars : List Char} {p : Char → Bool} (rest : List Char),
      chars.head?.any p = true → p ')' = false →
      ∃ c text, chars ++ rest = c :: text ∧ c ≠ ')' := by
    intro chars p rest some other
    cases chars with
    | nil => cases some
    | cons c chars =>
      refine ⟨c, chars ++ rest, rfl, ?_⟩
      rintro rfl
      rw [List.head?_cons, Option.any_some, other] at some
      cases some
  induction operand using Operand.pieces.induct with
  | case1 left op right ihLeft _ =>
    rw [Operand.words, List.forall_mem_append] at lexical
    obtain ⟨c, text, head, other⟩ := ihLeft lexical.1
    exact ⟨c, _, by rw [Operand.words, tight_append, head]; rfl, other⟩
  | case2 negative operand _ =>
    obtain ⟨c, _, chars, _, _, other⟩ := arithmetic_chars (signOperator negative)
    have head : (Word.fixed (.arithmetic (signOperator negative))).chars = [c] := chars
    exact ⟨c, _, by rw [Operand.words, tight_cons, head]; rfl, other⟩
  | case3 inner _ => exact ⟨'(', _, by rw [Operand.words]; rfl, by decide⟩
  | case4 name arguments =>
    rw [Operand.words, List.forall_mem_cons] at lexical
    rw [Operand.words, tight_cons]
    exact named _ (lexical.1.named rfl).1 (startsIdentifier_mark (by decide))
  | case5 name =>
    rw [Operand.words, List.forall_mem_singleton] at lexical
    rw [Operand.words, tight_cons]
    exact named _ (lexical.named rfl).1 (startsIdentifier_mark (by decide))
  | case6 text =>
    rw [Operand.words, List.forall_mem_singleton] at lexical
    rw [Operand.words, tight_cons]
    exact named _ (head_of_startsNumber (lexical.number rfl).2) (by decide)
  | case7 raw =>
    rw [Operand.words, List.forall_mem_singleton] at lexical
    exact absurd rfl lexical.unquoted

/-- What follows an argument: the others and the closing bracket, and the text after them. -/
def argumentTail (others : List Operand) (rest : List Char) : List Char :=
  match others with
  | [] => ')' :: rest
  | _ => ',' :: (tight (argumentWords others) ++ rest)

theorem followsArgument_tail (others : List Operand) (rest : List Char) :
    FollowsArgument (argumentTail others rest) := by
  cases others with
  | nil => exact followsArgument_closing rest
  | cons => exact followsArgument_comma _

theorem tight_arguments_cons (operand : Operand) (others : List Operand) (rest : List Char) :
    tight (argumentWords (operand :: others)) ++ rest =
      tight operand.words ++ argumentTail others rest := by
  cases others with
  | nil =>
    rw [argumentWords, tight_append, List.append_assoc]
    rfl
  | cons next others =>
    rw [argumentWords_cons _ (List.cons_ne_nil next others), tight_append, List.append_assoc]
    rfl

mutual

/-- The text of the words of an operand tells it from a shaped one. -/
theorem Operand.tight_unique : (operand : Operand) → (∀ word ∈ operand.words, word.Lexical) →
    ∀ {shaped : Operand} {rest other : List Char}, shaped.isShaped = true →
    FollowsOperand rest → FollowsArgument other →
    tight operand.words ++ rest = tight shaped.words ++ other → operand = shaped ∧ rest = other
  | .binary left op right, lexical, shaped, rest, other, isShaped, follows, argument, same => by
    rw [Operand.words, List.forall_mem_append] at lexical
    rw [Operand.words, tight_append, tight_cons, List.append_assoc, List.append_assoc] at same
    obtain ⟨_, rfl⟩ := left.tight_unique lexical.1 isShaped
      (followsOperand_arithmetic op _).1 argument same
    exact absurd argument (followsOperand_arithmetic op _).2
  | .signed negative operand, lexical, shaped, rest, other, isShaped, follows, argument, same => by
    obtain ⟨c, mark, chars, _⟩ := arithmetic_chars (signOperator negative)
    have head : (Word.fixed (.arithmetic (signOperator negative))).chars = [c] := chars
    rw [Operand.words, tight_cons, head] at same
    have starts := Operand.starts_of_isShaped isShaped same
    rw [startsIdentifier_mark mark] at starts
    cases starts
  | .paren inner, lexical, shaped, rest, other, isShaped, follows, argument, same => by
    rw [Operand.words] at same
    have starts := Operand.starts_of_isShaped (c := '(') isShaped same
    rw [startsIdentifier_mark (by decide)] at starts
    cases starts
  | .call name arguments, lexical, shaped, rest, other, isShaped, follows, argument, same => by
    rw [Operand.words, List.forall_mem_cons, List.forall_mem_cons] at lexical
    have continues := (lexical.1.named rfl).2
    rw [tight_call] at same
    cases shaped with
    | identifier other =>
      rw [tight_identifier] at same
      obtain ⟨_, rfl⟩ := run_unique continues (isName_chars isShaped).continues
        (stops_mark (by decide) _) argument.followsOperand.1 same
      exact absurd rfl argument.followsOperand.2
    | call other others =>
      rw [Operand.isShaped, Bool.and_eq_true] at isShaped
      rw [tight_call] at same
      obtain ⟨names, tails⟩ := run_unique continues (isName_chars isShaped.1).continues
        (stops_mark (by decide) _) (stops_mark (by decide) _) same
      obtain rfl : name = other := String.toList_inj.1 names
      obtain ⟨rfl, rfl⟩ := arguments_unique arguments lexical.2.2 isShaped.2 (List.cons.inj tails).2
      exact ⟨rfl, rfl⟩
    | _ => cases isShaped
  | .identifier name, lexical, shaped, rest, other, isShaped, follows, argument, same => by
    rw [Operand.words, List.forall_mem_singleton] at lexical
    have continues := (lexical.named rfl).2
    rw [tight_identifier] at same
    cases shaped with
    | identifier other =>
      rw [tight_identifier] at same
      obtain ⟨names, rfl⟩ := run_unique continues (isName_chars isShaped).continues follows.1
        argument.followsOperand.1 same
      obtain rfl : name = other := String.toList_inj.1 names
      exact ⟨rfl, rfl⟩
    | call other others =>
      rw [Operand.isShaped, Bool.and_eq_true] at isShaped
      rw [tight_call] at same
      obtain ⟨_, rfl⟩ := run_unique continues (isName_chars isShaped.1).continues follows.1
        (stops_mark (by decide) _) same
      exact absurd rfl follows.2
    | _ => cases isShaped
  | .number text, lexical, shaped, rest, other, isShaped, follows, argument, same => by
    rw [Operand.words, List.forall_mem_singleton] at lexical
    have head : text.toList.head?.any (fun c => c.isDigit || c = '.') = true :=
      head_of_startsNumber (lexical.number rfl).2
    rw [Operand.words, tight_cons, tight_nil, List.append_nil] at same
    obtain ⟨c, chars, split⟩ := List.exists_cons_of_ne_nil (l := text.toList) (by
      intro empty
      rw [empty] at head
      cases head)
    have same : text.toList ++ rest = tight shaped.words ++ other := same
    rw [split] at head same
    have starts := Operand.starts_of_isShaped isShaped same
    rw [List.head?_cons, Option.any_some, Bool.or_eq_true, decide_eq_true_eq] at head
    rcases head with digit | rfl
    · rw [startsIdentifier_digit digit] at starts
      cases starts
    · exact absurd starts (by decide +kernel)
  | .quoted raw, lexical, shaped, rest, other, isShaped, follows, argument, same => by
    rw [Operand.words, List.forall_mem_singleton] at lexical
    exact absurd rfl lexical.unquoted

theorem arguments_unique : (operands : List Operand) →
    (∀ word ∈ argumentWords operands, word.Lexical) →
    ∀ {shaped : List Operand} {rest other : List Char}, allShaped shaped = true →
    tight (argumentWords operands) ++ rest = tight (argumentWords shaped) ++ other →
    operands = shaped ∧ rest = other
  | [], lexical, [], rest, other, isShaped, same => by
    rw [argumentWords] at same
    exact ⟨rfl, (List.cons.inj same).2⟩
  | [], lexical, shaped :: others, rest, other, isShaped, same => by
    rw [allShaped, Bool.and_eq_true] at isShaped
    rw [tight_arguments_cons] at same
    have starts := Operand.starts_of_isShaped (c := ')') isShaped.1 same
    rw [startsIdentifier_mark (by decide)] at starts
    cases starts
  | operand :: operands, lexical, [], rest, other, isShaped, same => by
    obtain ⟨c, text, head, notClosing⟩ := operand.head_of_lexical fun word mem =>
      lexical word (words_subset_arguments mem)
    rw [tight_arguments_cons, head] at same
    exact absurd (List.cons.inj same).1 notClosing
  | [operand], lexical, shaped :: others, rest, other, isShaped, same => by
    rw [argumentWords, List.forall_mem_append] at lexical
    rw [allShaped, Bool.and_eq_true] at isShaped
    rw [tight_arguments_cons, tight_arguments_cons] at same
    obtain ⟨rfl, tails⟩ := operand.tight_unique lexical.1 isShaped.1
      (followsArgument_tail _ _).followsOperand (followsArgument_tail _ _) same
    cases others with
    | nil => exact ⟨rfl, (List.cons.inj tails).2⟩
    | cons next others => exact absurd (List.cons.inj tails).1 (by decide)
  | operand :: second :: more, lexical, shaped :: others, rest, other, isShaped, same => by
    rw [argumentWords_cons _ (List.cons_ne_nil second more), List.forall_mem_append,
      List.forall_mem_cons] at lexical
    rw [allShaped, Bool.and_eq_true] at isShaped
    rw [tight_arguments_cons, tight_arguments_cons] at same
    obtain ⟨rfl, tails⟩ := operand.tight_unique lexical.1 isShaped.1
      (followsArgument_tail _ _).followsOperand (followsArgument_tail _ _) same
    cases others with
    | nil => exact absurd (List.cons.inj tails).1 (by decide)
    | cons next others =>
      obtain ⟨equal, rfl⟩ := arguments_unique (second :: more) lexical.2.2 isShaped.2
        (List.cons.inj tails).2
      exact ⟨by rw [equal], rfl⟩

end

end TelemetryQuery.Having
