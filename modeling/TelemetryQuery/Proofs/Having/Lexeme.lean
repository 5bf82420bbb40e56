import TelemetryQuery.Proofs.Having.Word
import TelemetryQuery.Proofs.Text.Class
/- Conditions on results as lexemes with gaps between them. -/
namespace TelemetryQuery.Having

open Filter (Munch munch_digits munch_exponent munch_takeWhile isAlphabetic_of_lt)

variable {c : Char} {p : Char → Bool} {kind : Kind} {text rest chars : List Char} {n : Nat}

/-- What holds of each of the first 128 characters holds of every ASCII character. -/
theorem ascii_all (all : ((List.range 128).map Char.ofNat).all p = true) (ascii : c.toNat < 128) :
    p c = true := by
  refine List.all_eq_true.1 all c (List.mem_map.2 ⟨c.toNat, List.mem_range.2 ascii, ?_⟩)
  exact Char.ofNat_toNat c

theorem startsIdentifier_ascii (ascii : c.toNat < 128) :
    startsIdentifier c = (c.isAlpha || c == '_') := by
  rw [startsIdentifier, isAlphabetic_of_lt (by omega)]

theorem continuesIdentifier_ascii (ascii : c.toNat < 128) :
    continuesIdentifier c = (c.isAlpha || c.isDigit || c == '_' || c == '.') := by
  rw [continuesIdentifier, Text.isAlphanumeric_ascii ascii]

theorem continuesIdentifier_blank (blank : Text.isBlank c = true) :
    continuesIdentifier c = false := by
  have line : (c == '_') = false := by
    rw [beq_eq_false_iff_ne]
    rintro rfl
    revert blank
    decide
  have point : (c == '.') = false := by
    rw [beq_eq_false_iff_ne]
    rintro rfl
    revert blank
    decide
  rw [continuesIdentifier, Text.isAlphanumeric_blank blank, line, point]
  rfl

theorem ascii_of_isDigit (digit : c.isDigit = true) : c.toNat < 128 := by
  have range : 48 ≤ c.toNat ∧ c.toNat ≤ 57 := by
    simpa [Char.isDigit, UInt32.le_iff_toNat_le] using digit
  omega

theorem continuesIdentifier_digit (digit : c.isDigit = true) : continuesIdentifier c = true := by
  rw [continuesIdentifier_ascii (ascii_of_isDigit digit), digit]
  simp

theorem startsIdentifier_digit (digit : c.isDigit = true) : startsIdentifier c = false := by
  have all : ((List.range 128).map Char.ofNat).all
      (fun c => !c.isDigit || !(c.isAlpha || c == '_')) = true := by decide
  have ascii := ascii_of_isDigit digit
  rw [startsIdentifier_ascii ascii]
  simpa [digit] using ascii_all all ascii

theorem continues_of_starts (starts : startsIdentifier c = true) :
    continuesIdentifier c = true := by
  rw [startsIdentifier, Bool.or_eq_true] at starts
  rw [continuesIdentifier, Text.isAlphanumeric]
  rcases starts with letter | line
  · simp [letter]
  · simp [line]

/-- The characters that marks are made of. -/
def markChars : List Char :=
  ['(', ')', ',', '=', '<', '>', '+', '-', '*', '/', '%', '!']

theorem markKind?_mem (found : markKind? c = some kind) : c ∈ markChars := by
  revert found
  fun_cases markKind? c <;> simp [markChars]

theorem doubleMarkKind?_mem {d : Char} (found : doubleMarkKind? c d = some kind) :
    c ∈ markChars ∧ d ∈ markChars := by
  revert found
  fun_cases doubleMarkKind? c d <;> simp [markChars]

theorem mark_all (all : markChars.all p = true) (mem : c ∈ markChars) : p c = true :=
  List.all_eq_true.1 all c mem

theorem ascii_of_mark (mem : c ∈ markChars) : c.toNat < 128 := by
  have all : markChars.all (fun c => c.toNat < 128) = true := by decide
  simpa using mark_all all mem

theorem continuesIdentifier_mark (mem : c ∈ markChars) : continuesIdentifier c = false := by
  have all : markChars.all (fun c => !(c.isAlpha || c.isDigit || c == '_' || c == '.')) = true := by
    decide
  rw [continuesIdentifier_ascii (ascii_of_mark mem)]
  simpa using mark_all all mem

theorem startsIdentifier_mark (mem : c ∈ markChars) : startsIdentifier c = false := by
  cases starts : startsIdentifier c with
  | false => rfl
  | true => exact absurd (continues_of_starts starts) (by simp [continuesIdentifier_mark mem])

/-- Whether tokens of a kind are marks. -/
def Kind.isMark : Kind → Bool
  | .lparen | .rparen | .comma | .comparison _ | .arithmetic _ => true
  | _ => false

/-- Whether tokens of a kind are words: names and reserved words. -/
def Kind.isWord : Kind → Bool
  | .not | .and | .or | .bool | .identifier => true
  | _ => false

theorem markKind?_isMark (found : markKind? c = some kind) : kind.isMark = true := by
  revert found
  fun_cases markKind? c <;> rintro ⟨⟩ <;> rfl

theorem doubleMarkKind?_isMark {d : Char} (found : doubleMarkKind? c d = some kind) :
    kind.isMark = true := by
  revert found
  fun_cases doubleMarkKind? c d <;> rintro ⟨⟩ <;> rfl

theorem Kind.ofWord_isWord (word : String) : (Kind.ofWord word).isWord = true := by
  rw [Kind.ofWord]
  split <;> rfl

/-- The token that a text starts with, by its first character. -/
inductive Starts : Char → List Char → Kind → Nat → Prop
  | double {c d : Char} {text : List Char} {kind : Kind} :
      doubleMarkKind? c d = some kind → Starts c (d :: text) kind 2
  | single {c : Char} {text : List Char} {kind : Kind} :
      (∀ d ∈ text.head?, doubleMarkKind? c d = none) → markKind? c = some kind →
      Starts c text kind 1
  | quoted {c : Char} {text : List Char} {n : Nat} :
      c = '\'' ∨ c = '"' → Text.quotedLength? c text = some n →
      Starts c text .quotedText (1 + n)
  | number {c : Char} {text : List Char} :
      c.isDigit = true ∨ c = '.' ∧ text.head?.any Char.isDigit = true →
      Starts c text .number (numberLength (c :: text))
  | word {c : Char} {text : List Char} : startsIdentifier c = true →
      Starts c text (.ofWord (String.ofList (c :: text.takeWhile continuesIdentifier)))
        (text.takeWhile continuesIdentifier).length.succ

/-- A character of no mark starts no mark, whatever follows. -/
theorem marks_none (other : c ∉ markChars) (text : List Char) :
    text.head?.bind (doubleMarkKind? c) = none ∧ markKind? c = none := by
  constructor
  · rw [Option.bind_eq_none_iff]
    intro d _
    rw [Option.eq_none_iff_forall_ne_some]
    exact fun kind found => other (doubleMarkKind?_mem found).1
  · rw [Option.eq_none_iff_forall_ne_some]
    exact fun kind found => other (markKind?_mem found)

theorem number_not_mark (number : c.isDigit = true ∨ c = '.' ∧ text.head?.any Char.isDigit = true) :
    c ∉ markChars := by
  intro mem
  rcases number with digit | ⟨rfl, _⟩
  · have all : markChars.all (fun c => !c.isDigit) = true := by decide
    have other := mark_all all mem
    rw [digit] at other
    cases other
  · revert mem; decide

theorem tokenAt?_eq_some : tokenAt? (c :: text) = some (kind, n) ↔ Starts c text kind n := by
  constructor
  · intro found
    rw [tokenAt?] at found
    split at found
    · next double =>
      obtain ⟨rfl, rfl⟩ := Prod.mk.inj (Option.some.inj found)
      obtain ⟨d, head, double⟩ := Option.bind_eq_some_iff.1 double
      obtain ⟨rest, rfl⟩ := List.head?_eq_some_iff.1 head
      exact .double double
    · next double single =>
      obtain ⟨rfl, rfl⟩ := Prod.mk.inj (Option.some.inj found)
      exact .single (Option.bind_eq_none_iff.1 double) single
    · split at found
      · next quote =>
        obtain ⟨m, closed, same⟩ := Option.map_eq_some_iff.1 found
        obtain ⟨rfl, rfl⟩ := Prod.mk.inj same
        exact .quoted (by simpa using quote) closed
      · split at found
        · next number =>
          obtain ⟨rfl, rfl⟩ := Prod.mk.inj (Option.some.inj found)
          exact .number (by simpa using number)
        · split at found
          · next starts =>
            obtain ⟨rfl, rfl⟩ := Prod.mk.inj (Option.some.inj found)
            exact .word starts
          · cases found
  · intro starts
    cases starts with
    | double double => simp [tokenAt?, double]
    | single alone single =>
      have noDouble : text.head?.bind (doubleMarkKind? c) = none :=
        Option.bind_eq_none_iff.2 alone
      simp [tokenAt?, noDouble, single]
    | quoted quote closed =>
      have other : c ∉ markChars := by rcases quote with rfl | rfl <;> decide
      obtain ⟨noDouble, noSingle⟩ := marks_none other text
      simp [tokenAt?, noDouble, noSingle, quote, closed]
    | number number =>
      obtain ⟨noDouble, noSingle⟩ := marks_none (number_not_mark number) text
      have noQuote : ¬(c = '\'' ∨ c = '"') := by
        rintro (rfl | rfl) <;> simp at number
      simp [tokenAt?, noDouble, noSingle, noQuote, number]
    | word starts =>
      have other : c ∉ markChars := by
        intro mem
        rw [startsIdentifier_mark mem] at starts
        cases starts
      obtain ⟨noDouble, noSingle⟩ := marks_none other text
      have noQuote : ¬(c = '\'' ∨ c = '"') := by
        rintro (rfl | rfl) <;> (revert starts; decide +kernel)
      have noNumber : ¬(c.isDigit = true ∨ c = '.' ∧ text.head?.any Char.isDigit = true) := by
        rintro (digit | ⟨rfl, _⟩)
        · rw [startsIdentifier_digit digit] at starts
          cases starts
        · revert starts; decide +kernel
      simp [tokenAt?, noDouble, noSingle, noQuote, noNumber, starts]

/-- The length of a point and the digits after it. -/
def pointLength : List Char → Nat
  | '.' :: rest => 1 + Text.digitsLength rest
  | _ => 0

theorem numberLength_eq (text : List Char) :
    numberLength text = Text.digitsLength text +
      pointLength (text.drop (Text.digitsLength text)) +
      Text.exponentLength (text.drop (Text.digitsLength text +
        pointLength (text.drop (Text.digitsLength text)))) :=
  rfl

theorem munch_point : Munch pointLength where
  bounded text := by
    unfold pointLength
    split
    · next rest =>
      have := munch_digits.bounded rest
      simp only [List.length_cons]
      omega
    · exact Nat.zero_le _
  cut text rest := by
    intro le
    cases text with
    | nil => exact (Nat.le_zero.1 le).symm
    | cons c text =>
      by_cases dot : c = '.'
      · subst dot
        have digits := munch_digits.cut text rest
        simp only [List.cons_append, pointLength, List.length_cons] at le ⊢
        grind
      · simp [pointLength, dot]

theorem munch_number : Munch numberLength where
  bounded text := by
    have whole := munch_digits.bounded
    have point := munch_point.bounded
    have exponent := munch_exponent.bounded
    grind [numberLength_eq]
  cut text rest := by
    intro le
    have whole := munch_digits.cut
    have point := munch_point.cut
    have exponent := munch_exponent.cut
    grind [numberLength_eq]

/-- Text that takes no number further: it starts with no digit, point or exponent. -/
def EndsNumber (rest : List Char) : Prop :=
  ∀ c ∈ rest.head?, c.isDigit = false ∧ c ≠ '.' ∧ c ≠ 'e' ∧ c ≠ 'E'

theorem digitsLength_append (ends : EndsNumber rest) (text : List Char) :
    Text.digitsLength (text ++ rest) = Text.digitsLength text := by
  have nothing : rest.takeWhile Char.isDigit = [] := by
    cases rest with
    | nil => rfl
    | cons c rest => exact List.takeWhile_cons_of_neg (by simp [(ends c rfl).1])
  rw [Text.digitsLength, Text.digitsLength, List.takeWhile_append, nothing, List.append_nil]
  split
  · next all => rw [all]
  · rfl

theorem pointLength_append (ends : EndsNumber rest) (text : List Char) :
    pointLength (text ++ rest) = pointLength text := by
  cases text with
  | nil =>
    cases rest with
    | nil => rfl
    | cons c rest => simp [pointLength, (ends c rfl).2.1]
  | cons c text =>
    by_cases dot : c = '.'
    · subst dot
      simp only [List.cons_append, pointLength, digitsLength_append ends]
    · simp [pointLength, dot]

theorem exponentLength_append {tail : List Char} (ends : EndsNumber rest)
    (whole : Text.exponentLength tail = tail.length) :
    Text.exponentLength (tail ++ rest) = tail.length := by
  cases tail with
  | nil =>
    cases rest with
    | nil => rfl
    | cons c rest => simp [Text.exponentLength, (ends c rfl).2.2]
  | cons mark text =>
    cases text with
    | nil => simp [Text.exponentLength, Text.digitsLength] at whole
    | cons c text =>
      have plain := digitsLength_append ends (c :: text)
      have signed := digitsLength_append ends text
      rw [← whole]
      grind [Text.exponentLength]

/-- A whole number stays one before text that takes it no further. -/
theorem numberLength_append (ends : EndsNumber rest) (whole : numberLength chars = chars.length) :
    numberLength (chars ++ rest) = chars.length := by
  have digitsLe := munch_digits.bounded chars
  have pointLe := munch_point.bounded (chars.drop (Text.digitsLength chars))
  rw [List.length_drop] at pointLe
  rw [numberLength_eq] at whole ⊢
  rw [digitsLength_append ends, List.drop_append_of_le_length digitsLe, pointLength_append ends,
    List.drop_append_of_le_length (by omega), exponentLength_append ends]
  all_goals
    rw [List.length_drop]
    omega

structure NumberParts (whole fraction exponent : List Char) : Prop where
  whole : ∀ c ∈ whole, c.isDigit = true
  fraction : fraction = [] ∨ ∃ digits, fraction = '.' :: digits ∧ ∀ c ∈ digits, c.isDigit = true
  exponent : exponent = [] ∨ ∃ mark sign digits, exponent = mark :: (sign ++ digits) ∧
    (mark = 'e' ∨ mark = 'E') ∧ (sign = [] ∨ sign = ['+'] ∨ sign = ['-']) ∧
    ∀ c ∈ digits, c.isDigit = true

theorem digitsLength_split (text : List Char) :
    ∃ digits rest, text = digits ++ rest ∧ digits.length = Text.digitsLength text ∧
      ∀ c ∈ digits, c.isDigit = true :=
  ⟨text.takeWhile Char.isDigit, text.dropWhile Char.isDigit,
    List.takeWhile_append_dropWhile.symm, rfl, List.all_eq_true.1 List.all_takeWhile⟩

theorem pointLength_split (text : List Char) :
    ∃ fraction rest, text = fraction ++ rest ∧ fraction.length = pointLength text ∧
      (fraction = [] ∨ ∃ digits, fraction = '.' :: digits ∧ ∀ c ∈ digits, c.isDigit = true) := by
  fun_cases pointLength text with
  | case1 text =>
    obtain ⟨digits, rest, rfl, length, all⟩ := digitsLength_split text
    refine ⟨'.' :: digits, rest, rfl, ?_, .inr ⟨digits, rfl, all⟩⟩
    rw [List.length_cons, length]
    omega
  | case2 => exact ⟨[], text, rfl, rfl, .inl rfl⟩

theorem exponentLength_split (text : List Char) :
    ∃ exponent rest, text = exponent ++ rest ∧ exponent.length = Text.exponentLength text ∧
      (exponent = [] ∨ ∃ mark sign digits, exponent = mark :: (sign ++ digits) ∧
        (mark = 'e' ∨ mark = 'E') ∧ (sign = [] ∨ sign = ['+'] ∨ sign = ['-']) ∧
        ∀ c ∈ digits, c.isDigit = true) := by
  fun_cases Text.exponentLength text with
  | case1 => exact ⟨[], [], rfl, rfl, .inl rfl⟩
  | case2 mark text sign digits taken =>
    rw [Bool.and_eq_true, Bool.or_eq_true, decide_eq_true_eq, decide_eq_true_eq] at taken
    obtain ⟨shown, rest, split, length, all⟩ := digitsLength_split (text.drop sign)
    have signs : (text.take sign).length = sign ∧
        (text.take sign = [] ∨ text.take sign = ['+'] ∨ text.take sign = ['-']) := by
      cases text with
      | nil => simp [sign]
      | cons c text =>
        by_cases plus : c = '+'
        · simp [sign, plus]
        · by_cases minus : c = '-' <;> simp [sign, plus, minus]
    refine ⟨mark :: (text.take sign ++ shown), rest, ?_, ?_,
      .inr ⟨mark, _, shown, rfl, taken.1, signs.2, all⟩⟩
    · rw [List.cons_append, List.append_assoc, ← split, List.take_append_drop]
    · rw [List.length_cons, List.length_append, signs.1, length]
      omega
  | case3 => exact ⟨[], _, rfl, rfl, .inl rfl⟩

/-- A number that is as long as its text falls into its parts. -/
theorem number_parts (whole : numberLength chars = chars.length) :
    ∃ digits fraction exponent, chars = digits ++ (fraction ++ exponent) ∧
      NumberParts digits fraction exponent := by
  rw [numberLength_eq] at whole
  obtain ⟨digits, afterDigits, rfl, digitsLength, allDigits⟩ := digitsLength_split chars
  rw [← digitsLength, List.drop_left] at whole
  obtain ⟨fraction, afterFraction, rfl, fractionLength, fractionParts⟩ :=
    pointLength_split afterDigits
  rw [← fractionLength, ← List.drop_drop, List.drop_left, List.drop_left] at whole
  obtain ⟨exponent, rest, rfl, exponentLength, exponentParts⟩ :=
    exponentLength_split afterFraction
  rw [← exponentLength] at whole
  simp only [List.length_append] at whole
  obtain rfl := List.length_eq_zero_iff.1 (show rest.length = 0 by omega)
  rw [List.append_nil]
  exact ⟨digits, fraction, exponent, rfl, allDigits, fractionParts, exponentParts⟩

theorem Starts.bounded (starts : Starts c text kind n) : 0 < n ∧ n ≤ (c :: text).length := by
  cases starts with
  | double _ => simp
  | single _ _ => simp
  | quoted _ closed =>
    have := Filter.quotedLength?_bounded closed
    simp only [List.length_cons]
    omega
  | number number =>
    refine ⟨?_, munch_number.bounded _⟩
    rw [numberLength_eq]
    rcases number with digit | ⟨rfl, _⟩
    · have some : 0 < Text.digitsLength (c :: text) := by simp [Text.digitsLength, digit]
      omega
    · have none : Text.digitsLength ('.' :: text) = 0 := by simp [Text.digitsLength]
      simp only [none, List.drop_zero, pointLength]
      omega
  | word _ =>
    have := (munch_takeWhile continuesIdentifier).bounded text
    simp only [List.length_cons]
    omega

/-- Whether a text starts as numbers do. -/
def startsNumber : List Char → Bool
  | [] => false
  | c :: more => c.isDigit || c = '.' && more.head?.any Char.isDigit

theorem head_of_startsNumber (starts : startsNumber chars = true) :
    chars.head?.any (fun c => c.isDigit || c = '.') = true := by
  cases chars with
  | nil => cases starts
  | cons c more =>
    rw [startsNumber, Bool.or_eq_true, Bool.and_eq_true] at starts
    rw [List.head?_cons, Option.any_some, Bool.or_eq_true]
    exact starts.imp id And.left

/-- The characters of a mark of one or two characters, and that no longer one starts there. -/
def MarkChars (kind : Kind) (chars rest : List Char) : Prop :=
  (∃ c, chars = [c] ∧ markKind? c = some kind ∧ ∀ d ∈ rest.head?, doubleMarkKind? c d = none) ∨
    ∃ c d, chars = [c, d] ∧ doubleMarkKind? c d = some kind

/-- The tokens by the characters that they take. -/
inductive Takes : List Char → List Char → Kind → Prop
  | mark {chars rest : List Char} {kind : Kind} : kind.isMark = true → MarkChars kind chars rest →
      Takes chars rest kind
  | quoted {chars rest : List Char} {c : Char} : c ∈ chars → c = '\'' ∨ c = '"' →
      Takes chars rest .quotedText
  | number {chars rest : List Char} : numberLength chars = chars.length →
      startsNumber chars = true → Takes chars rest .number
  | word {chars rest : List Char} : chars.head?.any startsIdentifier = true →
      (∀ c ∈ chars, continuesIdentifier c = true) →
      rest.head?.any continuesIdentifier = false →
      Takes chars rest (.ofWord (String.ofList chars))

theorem takeWhile_run {run : List Char} (all : ∀ c ∈ run, p c = true)
    (stops : rest.head?.any p = false) : (run ++ rest).takeWhile p = run := by
  rw [List.takeWhile_append_of_pos all]
  cases rest with
  | nil => simp
  | cons c rest => rw [List.takeWhile_cons_of_neg (by simpa using stops), List.append_nil]

theorem takeWhile_left {run : List Char}
    (length : ((run ++ rest).takeWhile p).length = run.length) :
    (∀ c ∈ run, p c = true) ∧ rest.head?.any p = false := by
  rw [List.takeWhile_append] at length
  split at length
  · next all =>
    have same : run.takeWhile p = run := (List.takeWhile_sublist p).eq_of_length all
    have holds := List.all_eq_true.1 (@List.all_takeWhile _ p run)
    rw [same] at holds
    rw [List.length_append] at length
    refine ⟨holds, ?_⟩
    cases rest with
    | nil => rfl
    | cons c rest =>
      cases next : p c with
      | false => simp [next]
      | true =>
        rw [List.takeWhile_cons_of_pos next, List.length_cons] at length
        omega
  · next short => exact absurd length short

theorem Starts.takes {more : List Char} (starts : Starts c text kind n)
    (following : text = more ++ rest) (length : n = more.length + 1) :
    Takes (c :: more) rest kind := by
  cases starts with
  | double double =>
    obtain ⟨d, rfl⟩ := List.length_eq_one_iff.1 (Nat.succ.inj length).symm
    obtain ⟨rfl, _⟩ := List.cons.inj following
    exact .mark (doubleMarkKind?_isMark double) (.inr ⟨c, _, rfl, double⟩)
  | single alone single =>
    obtain rfl := List.length_eq_zero_iff.1 (Nat.succ.inj length).symm
    subst following
    exact .mark (markKind?_isMark single) (.inl ⟨c, rfl, single, alone⟩)
  | quoted quote _ => exact .quoted List.mem_cons_self quote
  | number number =>
    subst following
    have whole : numberLength (c :: more) = (c :: more).length := by
      rw [munch_number.cut (c :: more) rest (Nat.le_of_eq length)]
      exact length
    refine .number whole ?_
    rw [startsNumber, Bool.or_eq_true, Bool.and_eq_true, decide_eq_true_eq]
    refine number.imp id fun point => ⟨point.1, ?_⟩
    obtain ⟨rfl, digit⟩ := point
    cases more with
    | nil =>
      -- a point alone would take the digit that follows it
      cases rest with
      | nil => cases digit
      | cons d rest =>
        have isDigit : d.isDigit = true := digit
        have some : 0 < Text.digitsLength (d :: rest) := by
          rw [Text.digitsLength, List.takeWhile_cons_of_pos isDigit]
          exact Nat.succ_pos _
        have none : Text.digitsLength ('.' :: d :: rest) = 0 := by simp [Text.digitsLength]
        rw [List.nil_append, numberLength_eq, none, List.drop_zero] at length
        simp only [pointLength, List.length_nil] at length
        omega
    | cons d more => exact digit
  | word starts =>
    subst following
    obtain ⟨continues, stops⟩ := takeWhile_left (Nat.succ.inj length)
    rw [takeWhile_run continues stops]
    exact .word starts (List.forall_mem_cons.2 ⟨continues_of_starts starts, continues⟩) stops

/-- The token that a text starts with, by the characters it takes. -/
theorem tokenAt?_takes (token : tokenAt? (chars ++ rest) = some (kind, chars.length)) :
    Takes chars rest kind := by
  cases chars with
  | nil =>
    cases rest with
    | nil => cases token
    | cons c rest => exact absurd (tokenAt?_eq_some.1 token).bounded.1 (Nat.lt_irrefl 0)
  | cons c more => exact (tokenAt?_eq_some.1 token).takes rfl rfl

/-- A mark stays one before text that makes no longer one of it. -/
theorem token_of_mark {other : List Char} (mark : MarkChars kind chars rest)
    (follows : ∀ d ∈ other.head?, d ∈ markChars → rest.head? = some d) :
    tokenAt? (chars ++ other) = some (kind, chars.length) := by
  rcases mark with ⟨c, rfl, single, alone⟩ | ⟨c, d, rfl, double⟩
  · refine tokenAt?_eq_some.2 (.single (fun d head => ?_) single)
    cases double : doubleMarkKind? c d with
    | none => rfl
    | some kind =>
      have same := follows d head (doubleMarkKind?_mem double).2
      rw [alone d same] at double
      cases double
  · exact tokenAt?_eq_some.2 (.double double)

/-- A run of word characters is a word before text that does not go on with it. -/
theorem token_of_word (starts : chars.head?.any startsIdentifier = true)
    (continues : ∀ c ∈ chars, continuesIdentifier c = true)
    (stops : rest.head?.any continuesIdentifier = false) :
    tokenAt? (chars ++ rest) = some (.ofWord (String.ofList chars), chars.length) := by
  cases chars with
  | nil => cases starts
  | cons c more =>
    have word := @Starts.word c (more ++ rest) starts
    rw [takeWhile_run (List.forall_mem_cons.1 continues).2 stops] at word
    exact tokenAt?_eq_some.2 word

theorem token_of_number (whole : numberLength chars = chars.length)
    (starts : startsNumber chars = true) (ends : EndsNumber rest) :
    tokenAt? (chars ++ rest) = some (.number, chars.length) := by
  cases chars with
  | nil => cases starts
  | cons c more =>
    rw [startsNumber, Bool.or_eq_true, Bool.and_eq_true, decide_eq_true_eq] at starts
    have number := @Starts.number c (more ++ rest) (starts.imp id fun point => ⟨point.1, by
      cases more with
      | nil => exact absurd point.2 (by simp)
      | cons d more => exact point.2⟩)
    rw [← List.cons_append, numberLength_append ends whole] at number
    exact tokenAt?_eq_some.2 number

/-- A token of a text, with the blanks before it. -/
structure Lexeme where
  gap : List Char
  kind : Kind
  chars : List Char

def Lexeme.word (lexeme : Lexeme) : Word :=
  .ofText lexeme.kind (String.ofList lexeme.chars)

def Blank (text : List Char) : Prop :=
  ∀ c ∈ text, Text.isBlank c = true

theorem blank_nil : Blank [] := by
  simp [Blank]

/-- The text of some lexemes and of what ends them. -/
def lay (ending : List Char) : List Lexeme → List Char
  | [] => ending
  | lexeme :: rest => lexeme.gap ++ (lexeme.chars ++ lay ending rest)

/-- Lexemes that are the tokens of their text. -/
def Laid (ending : List Char) : List Lexeme → Prop
  | [] => Blank ending
  | lexeme :: rest =>
    Blank lexeme.gap ∧ lexeme.chars.head?.any (!Text.isBlank ·) = true ∧
      tokenAt? (lexeme.chars ++ lay ending rest) = some (lexeme.kind, lexeme.chars.length) ∧
      Laid ending rest

theorem lexFrom_blank {gap : List Char} (blank : Blank gap) (place : Text.Place)
    (text : List Char) : lexFrom place (gap ++ text) = lexFrom (place.after gap) text := by
  induction gap generalizing place with
  | nil => rfl
  | cons c gap ih =>
    rw [List.cons_append, lexFrom, if_pos (blank c List.mem_cons_self),
      ih fun d mem => blank d (List.mem_cons_of_mem c mem)]
    rfl

/-- A text laid out as lexemes has their tokens and no stray characters. -/
theorem lexFrom_lay {ending : List Char} {lexemes : List Lexeme} (laid : Laid ending lexemes)
    (place : Text.Place) :
    (lexFrom place (lay ending lexemes)).errors = [] ∧
      (lexFrom place (lay ending lexemes)).tokens.map Token.word = lexemes.map Lexeme.word := by
  induction lexemes generalizing place with
  | nil =>
    have same := lexFrom_blank (show Blank ending from laid) place []
    rw [List.append_nil] at same
    rw [lay, same, lexFrom]
    exact ⟨rfl, rfl⟩
  | cons lexeme rest ih =>
    obtain ⟨gapBlank, headPlain, token, restLaid⟩ := laid
    obtain ⟨gap, kind, chars⟩ := lexeme
    rw [lay, lexFrom_blank gapBlank]
    cases chars with
    | nil => cases headPlain
    | cons c chars =>
      have plain : Text.isBlank c = false := by simpa using headPlain
      obtain ⟨clean, words⟩ := ih restLaid ((place.after gap).after (c :: chars))
      rw [List.cons_append] at token ⊢
      rw [lexFrom, if_neg (by simp [plain]), token]
      simp only [List.length_cons, Nat.add_one_sub_one, List.take_left, List.drop_left]
      refine ⟨clean, ?_⟩
      rw [List.map_cons, List.map_cons, words]
      rfl

/-- A text without stray characters is laid out as lexemes, whose words are those of its tokens. -/
theorem laid_of_lexFrom (place : Text.Place) (text : List Char)
    (clean : (lexFrom place text).errors = []) :
    ∃ ending lexemes, text = lay ending lexemes ∧ Laid ending lexemes ∧
      (lexFrom place text).tokens.map Token.word = lexemes.map Lexeme.word := by
  fun_induction lexFrom place text with
  | case1 place => exact ⟨[], [], rfl, blank_nil, rfl⟩
  | case2 place c text blank ih =>
    obtain ⟨ending, lexemes, rfl, laid, words⟩ := ih clean
    cases lexemes with
    | nil =>
      refine ⟨c :: ending, [], rfl, ?_, words⟩
      exact List.forall_mem_cons.2 ⟨blank, laid⟩
    | cons lexeme rest =>
      refine ⟨ending, { lexeme with gap := c :: lexeme.gap } :: rest, rfl, ?_, words⟩
      exact ⟨List.forall_mem_cons.2 ⟨blank, laid.1⟩, laid.2⟩
  | case3 place c text plain kind length token chars more ih =>
    obtain ⟨positive, bounded⟩ := (tokenAt?_eq_some.1 token).bounded
    obtain ⟨ending, lexemes, layout, laid, words⟩ := ih clean
    have split : c :: text = chars ++ lay ending lexemes := by
      rw [← layout, List.cons_append, List.take_append_drop]
    have size : chars.length = length := by
      rw [List.length_cons, List.length_take]
      rw [List.length_cons] at bounded
      omega
    refine ⟨ending, ⟨[], kind, chars⟩ :: lexemes, split, ⟨blank_nil, ?_, ?_, laid⟩, ?_⟩
    · simpa [chars] using plain
    · rw [← split, token, size]
    · rw [List.map_cons, List.map_cons, words]
      rfl
  | case4 => cases clean

end TelemetryQuery.Having
