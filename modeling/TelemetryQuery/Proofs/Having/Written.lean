import TelemetryQuery.Proofs.Having.Shape
/- How well-shaped references may be written: their length, their brackets and their gaps. -/
namespace TelemetryQuery.Having

open Filter (joinWith_cons)

variable {c : Char} {chars start rest : List Char}

theorem lexical_name {name : String} (named : isName name = true) :
    (Word.mk .identifier name).Lexical where
  named _ := ⟨(isName_chars named).starts, (isName_chars named).continues⟩
  unreserved _ := isName_kind named
  number same := nomatch same
  unquoted same := nomatch same

mutual

theorem Operand.lexical_of_isShaped : (operand : Operand) → operand.isShaped = true →
    ∀ word ∈ operand.words, word.Lexical
  | .identifier name, shaped => by
    rw [Operand.words, List.forall_mem_singleton]
    exact lexical_name shaped
  | .call name arguments, shaped => by
    rw [Operand.isShaped, Bool.and_eq_true] at shaped
    rw [Operand.words, List.forall_mem_cons, List.forall_mem_cons]
    exact ⟨lexical_name shaped.1, lexical_fixed rfl, lexical_of_allShaped arguments shaped.2⟩
  | .binary .., shaped | .signed .., shaped | .paren .., shaped | .number .., shaped
  | .quoted .., shaped => nomatch shaped

theorem lexical_of_allShaped : (operands : List Operand) → allShaped operands = true →
    ∀ word ∈ argumentWords operands, word.Lexical
  | [], _ => by
    rw [argumentWords, List.forall_mem_singleton]
    exact lexical_fixed rfl
  | [operand], shaped => by
    rw [allShaped, Bool.and_eq_true] at shaped
    rw [argumentWords, List.forall_mem_append, List.forall_mem_singleton]
    exact ⟨operand.lexical_of_isShaped shaped.1, lexical_fixed rfl⟩
  | operand :: second :: rest, shaped => by
    rw [allShaped, Bool.and_eq_true] at shaped
    rw [argumentWords_cons _ (List.cons_ne_nil second rest), List.forall_mem_append,
      List.forall_mem_cons]
    exact ⟨operand.lexical_of_isShaped shaped.1, lexical_fixed rfl,
      lexical_of_allShaped (second :: rest) shaped.2⟩

end

/-- A text with as many bytes as characters. -/
def OneByte (text : String) : Prop :=
  text.utf8ByteSize = text.toList.length

theorem oneByte_of_ascii {text : String} (ascii : ∀ c ∈ text.toList, c.toNat < 128) :
    OneByte text := by
  have size : ∀ chars : List Char, (∀ c ∈ chars, c.toNat < 128) →
      (String.ofList chars).utf8ByteSize = chars.length := by
    intro chars
    induction chars with
    | nil => intro _; rfl
    | cons c chars ih =>
      intro ascii
      obtain ⟨first, rest⟩ := List.forall_mem_cons.1 ascii
      have one : c.utf8Size = 1 :=
        Char.utf8Size_eq_one_iff.2 (UInt32.le_iff_toNat_le.2 (Nat.le_of_lt_succ first))
      rw [String.ofList_cons, String.utf8ByteSize_append, String.utf8ByteSize_singleton, one,
        ih rest, List.length_cons, Nat.add_comm]
  have whole := size text.toList ascii
  rw [String.ofList_toList] at whole
  exact whole

theorem OneByte.append {first second : String} (one : OneByte first) (other : OneByte second) :
    OneByte (first ++ second) := by
  rw [OneByte, String.utf8ByteSize_append, one, other, String.toList_append, List.length_append]

theorem oneByte_joinWith {separator : String} (one : OneByte separator) {texts : List String}
    (all : ∀ text ∈ texts, OneByte text) : OneByte (Text.joinWith separator texts) := by
  induction texts with
  | nil => rfl
  | cons text rest ih =>
    obtain ⟨first, others⟩ := List.forall_mem_cons.1 all
    cases rest with
    | nil => exact first
    | cons next rest =>
      rw [joinWith_cons _ _ (List.cons_ne_nil next rest)]
      exact (first.append one).append (ih others)

mutual

theorem Operand.oneByte_render : (operand : Operand) → operand.isShaped = true →
    OneByte operand.render
  | .identifier name, shaped => oneByte_of_ascii (isName_chars shaped).ascii
  | .call name arguments, shaped => by
    rw [Operand.isShaped, Bool.and_eq_true] at shaped
    have inner := oneByte_joinWith (show OneByte ", " from rfl)
      (oneByte_operands arguments shaped.2)
    have callee := oneByte_of_ascii (isName_chars shaped.1).ascii
    have opening : OneByte "(" := rfl
    have closing : OneByte ")" := rfl
    rw [Operand.render]
    exact ((callee.append opening).append inner).append closing
  | .binary .., shaped | .signed .., shaped | .paren .., shaped | .number .., shaped
  | .quoted .., shaped => nomatch shaped

theorem oneByte_operands : (operands : List Operand) → allShaped operands = true →
    ∀ text ∈ renderOperands operands, OneByte text
  | [], _ => by
    rw [renderOperands]
    exact List.forall_mem_nil _
  | operand :: rest, shaped => by
    rw [allShaped, Bool.and_eq_true] at shaped
    rw [renderOperands, List.forall_mem_cons]
    exact ⟨operand.oneByte_render shaped.1, oneByte_operands rest shaped.2⟩

end

theorem notMem_of_continues (continues : ∀ c ∈ chars, continuesIdentifier c = true)
    (mark : c ∈ markChars) : c ∉ chars := by
  intro mem
  have stops := continuesIdentifier_mark mark
  rw [continues c mem] at stops
  cases stops

theorem count_of_continues (continues : ∀ c ∈ chars, continuesIdentifier c = true)
    (mark : c ∈ markChars) : chars.count c = 0 :=
  List.count_eq_zero.2 (notMem_of_continues continues mark)

theorem tight_name (name : String) (words : List Word) :
    tight (⟨.identifier, name⟩ :: words) = name.toList ++ tight words :=
  rfl

theorem tight_opening (words : List Word) : tight (.fixed .lparen :: words) = '(' :: tight words :=
  rfl

theorem tight_closing (words : List Word) : tight (.fixed .rparen :: words) = ')' :: tight words :=
  rfl

theorem tight_comma (words : List Word) : tight (.fixed .comma :: words) = ',' :: tight words :=
  rfl

mutual

/-- A shaped operand is written with a blank after each comma and no others. -/
theorem Operand.length_render : (operand : Operand) → operand.isShaped = true →
    operand.render.toList.length =
      (tight operand.words).length + (tight operand.words).count ','
  | .identifier name, shaped => by
    have commas := count_of_continues (c := ',') (isName_chars shaped).continues (by decide)
    rw [Operand.render, Operand.words, tight_name, tight_nil, List.append_nil, commas]
    rfl
  | .call name arguments, shaped => by
    rw [Operand.isShaped, Bool.and_eq_true] at shaped
    have commas := count_of_continues (c := ',') (isName_chars shaped.1).continues (by decide)
    have inner := length_arguments arguments shaped.2
    have opening : "(".toList.length = 1 := rfl
    have closing : ")".toList.length = 1 := rfl
    simp only [Operand.render, Operand.words, String.toList_append, List.length_append,
      tight_name, tight_opening, List.length_cons, List.count_append, commas, opening, closing]
    rw [List.count_cons_of_ne (by decide)]
    omega
  | .binary .., shaped | .signed .., shaped | .paren .., shaped | .number .., shaped
  | .quoted .., shaped => nomatch shaped

theorem length_arguments : (operands : List Operand) → allShaped operands = true →
    (Text.joinWith ", " (renderOperands operands)).toList.length + 1 =
      (tight (argumentWords operands)).length + (tight (argumentWords operands)).count ','
  | [], _ => by
    simp only [renderOperands, Text.joinWith, argumentWords]
    decide
  | [operand], shaped => by
    rw [allShaped, Bool.and_eq_true] at shaped
    have inner := operand.length_render shaped.1
    have closing : [')'].count ',' = 0 := by decide
    simp only [renderOperands, Text.joinWith, argumentWords, tight_append, tight_closing, tight_nil,
      List.length_append, List.count_append, List.length_cons, List.length_nil, closing]
    omega
  | operand :: second :: rest, shaped => by
    rw [allShaped, Bool.and_eq_true] at shaped
    have inner := operand.length_render shaped.1
    have others := length_arguments (second :: rest) shaped.2
    have comma : ", ".toList.length = 2 := rfl
    rw [argumentWords_cons _ (List.cons_ne_nil second rest), renderOperands,
      joinWith_cons _ _ (by simp [renderOperands])]
    simp only [String.toList_append, List.length_append, tight_append, tight_comma,
      List.length_cons, List.count_append, List.count_cons_self, comma]
    omega

end

/-- How many brackets a text opens more than it closes. -/
def depth (text : List Char) : Int :=
  text.count '(' - text.count ')'

theorem depth_append (first second : List Char) :
    depth (first ++ second) = depth first + depth second := by
  simp only [depth, List.count_append]
  omega

theorem depth_opening (text : List Char) : depth ('(' :: text) = 1 + depth text := by
  simp only [depth, List.count_cons_self, List.count_cons_of_ne (show '(' ≠ ')' by decide)]
  omega

theorem depth_comma (text : List Char) : depth (',' :: text) = depth text := by
  simp only [depth, List.count_cons_of_ne (show ',' ≠ '(' by decide),
    List.count_cons_of_ne (show ',' ≠ ')' by decide)]

theorem depth_of_continues (continues : ∀ c ∈ chars, continuesIdentifier c = true) :
    depth chars = 0 := by
  rw [depth, count_of_continues continues (by decide), count_of_continues continues (by decide)]
  rfl

/-- A start of two texts with a character between them ends in the first, or goes on after the
character. -/
theorem start_of_parts {first second : List Char} (split : first ++ c :: second = start ++ rest) :
    (∃ more, first = start ++ more) ∨
      ∃ more, start = first ++ c :: more ∧ second = more ++ rest := by
  rcases List.append_eq_append_iff.1 split with ⟨more, same, tail⟩ | ⟨more, same, _⟩
  · cases more with
    | nil => exact .inl ⟨[], by rw [same, List.append_nil, List.append_nil]⟩
    | cons d more =>
      rw [List.cons_append, List.cons.injEq] at tail
      obtain ⟨rfl, tail⟩ := tail
      exact .inr ⟨more, same, tail⟩
  · exact .inl ⟨more, same⟩

theorem depth_start_of_continues (continues : ∀ c ∈ chars, continuesIdentifier c = true)
    (split : chars = start ++ rest) : depth start = 0 := by
  subst split
  exact depth_of_continues fun c mem => continues c (List.mem_append_left _ mem)

mutual

/-- The brackets of a shaped operand match: it closes what it opens, and nothing before. -/
theorem Operand.depth_tight : (operand : Operand) → operand.isShaped = true →
    depth (tight operand.words) = 0 ∧
      ∀ start rest, tight operand.words = start ++ rest → 0 ≤ depth start
  | .identifier name, shaped => by
    have continues := (isName_chars shaped).continues
    rw [Operand.words, tight_name, tight_nil, List.append_nil]
    refine ⟨depth_of_continues continues, fun start rest split => ?_⟩
    exact Int.le_of_eq (depth_start_of_continues continues split).symm
  | .call name arguments, shaped => by
    rw [Operand.isShaped, Bool.and_eq_true] at shaped
    have continues := (isName_chars shaped.1).continues
    obtain ⟨total, starts⟩ := depth_arguments arguments shaped.2
    have named := depth_of_continues continues
    rw [Operand.words, tight_name, tight_opening]
    constructor
    · rw [depth_append, depth_opening, named, total]
      rfl
    · intro start rest split
      rcases start_of_parts split with ⟨more, same⟩ | ⟨opened, rfl, same⟩
      · exact Int.le_of_eq (depth_start_of_continues continues same).symm
      · have inner := starts opened rest same
        rw [depth_append, depth_opening, named]
        omega
  | .binary .., shaped | .signed .., shaped | .paren .., shaped | .number .., shaped
  | .quoted .., shaped => nomatch shaped

/-- Arguments close one bracket more than they open, with their last character. -/
theorem depth_arguments : (operands : List Operand) → allShaped operands = true →
    depth (tight (argumentWords operands)) = -1 ∧
      ∀ start rest, tight (argumentWords operands) = start ++ rest →
        -1 ≤ depth start ∧ (rest ≠ [] → 0 ≤ depth start)
  | [], _ => by
    rw [argumentWords, tight_closing, tight_nil]
    refine ⟨by decide, fun start rest split => ?_⟩
    cases start with
    | nil => exact ⟨by decide, fun _ => by decide⟩
    | cons c start =>
      obtain ⟨rfl, tail⟩ := List.cons.inj split
      obtain ⟨rfl, rfl⟩ := List.append_eq_nil_iff.1 tail.symm
      exact ⟨by decide, fun more => absurd rfl more⟩
  | [operand], shaped => by
    rw [allShaped, Bool.and_eq_true] at shaped
    obtain ⟨total, starts⟩ := operand.depth_tight shaped.1
    rw [argumentWords, tight_append, tight_closing, tight_nil]
    constructor
    · rw [depth_append, total]
      decide
    · intro start rest split
      rcases start_of_parts split with ⟨more, same⟩ | ⟨more, rfl, same⟩
      · have := starts start more same
        exact ⟨by omega, fun _ => this⟩
      · obtain ⟨rfl, rfl⟩ := List.append_eq_nil_iff.1 same.symm
        rw [depth_append, total]
        exact ⟨by decide, fun more => absurd rfl more⟩
  | operand :: second :: others, shaped => by
    rw [allShaped, Bool.and_eq_true] at shaped
    obtain ⟨total, starts⟩ := operand.depth_tight shaped.1
    obtain ⟨otherTotal, otherStarts⟩ := depth_arguments (second :: others) shaped.2
    rw [argumentWords_cons _ (List.cons_ne_nil second others), tight_append, tight_comma]
    constructor
    · rw [depth_append, depth_comma, total, otherTotal]
      rfl
    · intro start rest split
      rcases start_of_parts split with ⟨more, same⟩ | ⟨more, rfl, same⟩
      · have := starts start more same
        exact ⟨by omega, fun _ => this⟩
      · have := otherStarts more rest same
        rw [depth_append, depth_comma, total, Int.zero_add]
        exact this

end

/-- A start of a call that closes a bracket, and is not the whole call, leaves one open. -/
theorem Operand.depth_inside {name : String} {arguments : List Operand}
    (shaped : (Operand.call name arguments).isShaped = true)
    (split : tight (Operand.call name arguments).words = start ++ rest) (more : rest ≠ [])
    (closes : ')' ∈ start) : 0 < depth start := by
  rw [Operand.isShaped, Bool.and_eq_true] at shaped
  have continues := (isName_chars shaped.1).continues
  rw [Operand.words, tight_name, tight_opening] at split
  rcases start_of_parts split with ⟨tail, same⟩ | ⟨opened, rfl, same⟩
  · refine absurd ?_ (notMem_of_continues (c := ')') continues (by decide))
    rw [same]
    exact List.mem_append_left _ closes
  · have inner := ((depth_arguments arguments shaped.2).2 opened rest same).2 more
    rw [depth_append, depth_opening, depth_of_continues continues]
    omega

/-- The end of a shaped operand closes at least as many brackets as it opens. -/
theorem Operand.depth_end {operand : Operand} (shaped : operand.isShaped = true)
    (split : tight operand.words = start ++ rest) : depth rest ≤ 0 := by
  obtain ⟨total, starts⟩ := operand.depth_tight shaped
  have first := starts start rest split
  rw [split, depth_append] at total
  omega

mutual

/-- The ways to write a reference: blanks may stand around the marks of a call. -/
inductive Written : Operand → List Char → Prop
  | identifier {name : String} : Written (.identifier name) name.toList
  | call {name : String} {arguments : List Operand} {gap text : List Char} : Blank gap →
      WrittenArguments arguments text →
      Written (.call name arguments) (name.toList ++ (gap ++ '(' :: text))

/-- The ways to write the arguments of a call, with the bracket that closes it. -/
inductive WrittenArguments : List Operand → List Char → Prop
  | none {gap : List Char} : Blank gap → WrittenArguments [] (gap ++ [')'])
  | last {operand : Operand} {gap text after : List Char} : Blank gap → Written operand text →
      Blank after → WrittenArguments [operand] (gap ++ (text ++ (after ++ [')'])))
  | more {operand : Operand} {operands : List Operand} {gap text after others : List Char} :
      Blank gap → Written operand text → Blank after → operands ≠ [] →
      WrittenArguments operands others →
      WrittenArguments (operand :: operands) (gap ++ (text ++ (after ++ ',' :: others)))

end

theorem strip_mark (mark : c ∈ markChars) (text : List Char) :
    strip (c :: text) = c :: strip text := by
  have all : markChars.all (!Text.isBlank ·) = true := by decide
  exact List.filter_cons_of_pos (mark_all all mark)

mutual

/-- However a shaped reference is written, it has the characters of its words. -/
theorem Written.strip_eq : {operand : Operand} → {text : List Char} → Written operand text →
    operand.isShaped = true → strip text = tight operand.words
  | .identifier name, _, .identifier, shaped => by
    rw [Operand.words, tight_name, tight_nil, List.append_nil]
    exact strip_solid (solid_of_continues (isName_chars shaped).continues)
  | .call name arguments, _, .call blank inner, shaped => by
    rw [Operand.isShaped, Bool.and_eq_true] at shaped
    have solid := strip_solid (solid_of_continues (isName_chars shaped.1).continues)
    rw [Operand.words, tight_name, tight_opening, strip_append, strip_append, solid,
      strip_blank blank, strip_mark (by decide), inner.strip_eq shaped.2]
    rfl

theorem WrittenArguments.strip_eq : {operands : List Operand} → {text : List Char} →
    WrittenArguments operands text → allShaped operands = true →
    strip text = tight (argumentWords operands)
  | [], _, .none blank, _ => by
    rw [argumentWords, strip_append, strip_blank blank, strip_mark (by decide)]
    rfl
  | [operand], _, .last blank inner after, shaped => by
    rw [allShaped, Bool.and_eq_true] at shaped
    rw [argumentWords, tight_append, tight_closing, strip_append, strip_append, strip_append,
      strip_blank blank, inner.strip_eq shaped.1, strip_blank after, strip_mark (by decide)]
    rfl
  | operand :: operands, _, .more blank inner after nonempty others, shaped => by
    rw [allShaped, Bool.and_eq_true] at shaped
    rw [argumentWords_cons _ nonempty, tight_append, tight_comma, strip_append, strip_append,
      strip_append, strip_blank blank, inner.strip_eq shaped.1, strip_blank after,
      strip_mark (by decide), others.strip_eq shaped.2]
    rfl

end

theorem lay_append (ending : List Char) (first second : List Lexeme) :
    lay ending (first ++ second) = lay [] first ++ lay ending second := by
  induction first with
  | nil => rfl
  | cons lexeme first ih => simp only [List.cons_append, lay, ih, List.append_assoc]

/-- Lexemes with blanks as gaps, written as the words of operands are. -/
def Plain (lexemes : List Lexeme) : Prop :=
  ∀ lexeme ∈ lexemes, Blank lexeme.gap ∧ lexeme.chars = lexeme.word.chars

theorem lay_cons_of_plain {lexeme : Lexeme} {lexemes : List Lexeme}
    (plain : Plain (lexeme :: lexemes)) {word : Word} (same : lexeme.word = word)
    (ending : List Char) :
    Blank lexeme.gap ∧ Plain lexemes ∧
      lay ending (lexeme :: lexemes) = lexeme.gap ++ (word.chars ++ lay ending lexemes) := by
  obtain ⟨first, rest⟩ := List.forall_mem_cons.1 plain
  refine ⟨first.1, rest, ?_⟩
  rw [lay, first.2, same]

mutual

/-- Lexemes of the words of a shaped reference write it, after the first gap. -/
theorem Operand.written : (operand : Operand) → operand.isShaped = true →
    {lexemes : List Lexeme} → Plain lexemes → lexemes.map Lexeme.word = operand.words →
    ∃ gap text, Blank gap ∧ lay [] lexemes = gap ++ text ∧ Written operand text
  | .identifier name, _, lexemes, plain, words => by
    rw [Operand.words] at words
    obtain ⟨lexeme, rest, rfl, same, tail⟩ := List.map_eq_cons_iff.1 words
    obtain rfl := List.map_eq_nil_iff.1 tail
    obtain ⟨blank, _, layout⟩ := lay_cons_of_plain plain same []
    refine ⟨lexeme.gap, name.toList, blank, ?_, .identifier⟩
    rw [layout, lay, List.append_nil]
    rfl
  | .call name arguments, shaped, lexemes, plain, words => by
    rw [Operand.isShaped, Bool.and_eq_true] at shaped
    rw [Operand.words] at words
    obtain ⟨lexeme, _, rfl, same, tail⟩ := List.map_eq_cons_iff.1 words
    obtain ⟨opening, rest, rfl, opens, tail⟩ := List.map_eq_cons_iff.1 tail
    obtain ⟨blank, plain, layout⟩ := lay_cons_of_plain plain same []
    obtain ⟨innerBlank, plain, innerLayout⟩ := lay_cons_of_plain plain opens []
    refine ⟨lexeme.gap, name.toList ++ (opening.gap ++ '(' :: lay [] rest), blank, ?_,
      .call innerBlank (writtenArguments arguments shaped.2 plain tail)⟩
    rw [layout, innerLayout]
    rfl
  | .binary .., shaped, _, _, _ | .signed .., shaped, _, _, _ | .paren .., shaped, _, _, _
  | .number .., shaped, _, _, _ | .quoted .., shaped, _, _, _ => nomatch shaped

theorem writtenArguments : (operands : List Operand) → allShaped operands = true →
    {lexemes : List Lexeme} → Plain lexemes → lexemes.map Lexeme.word = argumentWords operands →
    WrittenArguments operands (lay [] lexemes)
  | [], _, lexemes, plain, words => by
    rw [argumentWords] at words
    obtain ⟨closing, rest, rfl, closes, tail⟩ := List.map_eq_cons_iff.1 words
    obtain rfl := List.map_eq_nil_iff.1 tail
    obtain ⟨blank, _, layout⟩ := lay_cons_of_plain plain closes []
    rw [layout]
    exact .none blank
  | [operand], shaped, lexemes, plain, words => by
    rw [allShaped, Bool.and_eq_true] at shaped
    rw [argumentWords] at words
    obtain ⟨first, last, rfl, firstWords, lastWords⟩ := List.map_eq_append_iff.1 words
    obtain ⟨firstPlain, lastPlain⟩ := List.forall_mem_append.1 plain
    obtain ⟨closing, rest, rfl, closes, tail⟩ := List.map_eq_cons_iff.1 lastWords
    obtain rfl := List.map_eq_nil_iff.1 tail
    obtain ⟨gap, text, gapBlank, layout, written⟩ := operand.written shaped.1 firstPlain firstWords
    obtain ⟨blank, _, closingLayout⟩ := lay_cons_of_plain lastPlain closes []
    rw [lay_append, layout, closingLayout, List.append_assoc]
    exact .last gapBlank written blank
  | operand :: second :: others, shaped, lexemes, plain, words => by
    rw [allShaped, Bool.and_eq_true] at shaped
    rw [argumentWords_cons _ (List.cons_ne_nil second others)] at words
    obtain ⟨first, last, rfl, firstWords, lastWords⟩ := List.map_eq_append_iff.1 words
    obtain ⟨firstPlain, lastPlain⟩ := List.forall_mem_append.1 plain
    obtain ⟨comma, rest, rfl, separates, tail⟩ := List.map_eq_cons_iff.1 lastWords
    obtain ⟨gap, text, gapBlank, layout, written⟩ := operand.written shaped.1 firstPlain firstWords
    obtain ⟨blank, restPlain, commaLayout⟩ := lay_cons_of_plain lastPlain separates []
    rw [lay_append, layout, commaLayout, List.append_assoc]
    exact .more gapBlank written blank (List.cons_ne_nil second others)
      (writtenArguments (second :: others) shaped.2 restPlain tail)

end

end TelemetryQuery.Having
