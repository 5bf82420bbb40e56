import TelemetryQuery.Proofs.Filter.Word
/- What a run of characters is depends on its own characters only, and on what may follow it. -/
namespace TelemetryQuery.Filter

variable {c quote : Char} {kind : Kind} {rest : List Char} {words : List Word} {n : Nat}

/-- Text that ends every word before it: none, or one that starts with a blank, a comma or a
bracket other than the opening square one. -/
def Stops (rest : List Char) : Prop :=
  ∀ c ∈ rest.head?, c ∈ [' ', '(', ')', ']', ',']

theorem Stops.nil_or_cons (stops : Stops rest) :
    rest = [] ∨ ∃ c ∈ [' ', '(', ')', ']', ','], ∃ more, rest = c :: more := by
  cases rest with
  | nil => exact .inl rfl
  | cons c more => exact .inr ⟨c, stops c rfl, more, rfl⟩

theorem Stops.head?_ne (stops : Stops rest) (other : c ∉ [' ', '(', ')', ']', ',']) :
    rest.head? ≠ some c :=
  fun same => other (stops c same)

/-- A length of the start of a text that is told from the characters it takes alone. -/
structure Munch (length : List Char → Nat) : Prop where
  bounded : ∀ text, length text ≤ text.length
  cut : ∀ text rest, length (text ++ rest) ≤ text.length → length text = length (text ++ rest)

/-- A length that a text which ends words does not change. -/
def Ends (length : List Char → Nat) : Prop :=
  ∀ text rest, Stops rest → length (text ++ rest) = length text

theorem munch_takeWhile (p : Char → Bool) : Munch fun text => (text.takeWhile p).length where
  bounded text := (List.takeWhile_sublist p).length_le
  cut text rest := by
    intro le
    rw [List.takeWhile_append] at le ⊢
    split at le
    · next all =>
      rw [List.length_append] at le
      rw [if_pos all, List.length_append, all]
      omega
    · next some => rw [if_neg some]

theorem ends_takeWhile {p : Char → Bool}
    (ends : [' ', '(', ')', ']', ','].all (fun c => !p c) = true) :
    Ends fun text => (text.takeWhile p).length := by
  intro text rest stops
  have none : rest.takeWhile p = [] := by
    rcases stops.nil_or_cons with rfl | ⟨c, mem, more, rfl⟩
    · rfl
    · exact List.takeWhile_cons_of_neg (by simpa using List.all_eq_true.1 ends c mem)
  dsimp only
  rw [List.takeWhile_append, none, List.append_nil]
  split
  · next all => exact all.symm
  · rfl

theorem munch_digits : Munch Text.digitsLength :=
  munch_takeWhile Char.isDigit

theorem ends_digits : Ends Text.digitsLength :=
  ends_takeWhile (by decide)

theorem munch_freeText : Munch freeTextLength :=
  munch_takeWhile _

theorem ends_freeText : Ends freeTextLength :=
  ends_takeWhile (by decide)

theorem munch_fraction : Munch Text.fractionLength where
  bounded text := by
    unfold Text.fractionLength
    split
    · have := munch_digits.bounded
      split <;> grind
    · exact Nat.zero_le _
  cut text rest := by
    intro le
    cases text with
    | nil => exact (Nat.le_zero.1 le).symm
    | cons c text =>
      by_cases dot : c = '.'
      · subst dot
        have digits := munch_digits.cut text rest
        simp only [List.cons_append, Text.fractionLength] at le ⊢
        grind
      · simp [Text.fractionLength, dot]

theorem ends_fraction : Ends Text.fractionLength := by
  intro text rest stops
  cases text with
  | nil =>
    rcases stops.nil_or_cons with rfl | ⟨c, mem, more, rfl⟩
    · rfl
    · have other : c ≠ '.' := by rintro rfl; revert mem; decide
      simp [Text.fractionLength, other]
  | cons c text =>
    by_cases dot : c = '.'
    · subst dot
      simp only [List.cons_append, Text.fractionLength, ends_digits text rest stops]
    · simp [Text.fractionLength, dot]

theorem munch_exponent : Munch Text.exponentLength where
  bounded text := by
    cases text with
    | nil => exact Nat.le_refl 0
    | cons mark text =>
      have digits := munch_digits.bounded
      cases text with
      | nil => grind [Text.exponentLength]
      | cons c text => grind [Text.exponentLength]
  cut text rest := by
    intro le
    cases text with
    | nil => exact (Nat.le_zero.1 le).symm
    | cons mark text =>
      cases text with
      | nil =>
        have none : Text.exponentLength [mark] = 0 := by
          simp [Text.exponentLength, Text.digitsLength]
        grind [Text.exponentLength]
      | cons c text =>
        have plain := munch_digits.cut (c :: text) rest
        have signed := munch_digits.cut text rest
        grind [Text.exponentLength]

theorem ends_exponent : Ends Text.exponentLength := by
  intro text rest stops
  cases text with
  | nil =>
    rcases stops.nil_or_cons with rfl | ⟨c, mem, more, rfl⟩
    · rfl
    · have other : c ≠ 'e' ∧ c ≠ 'E' := by
        constructor <;> (rintro rfl; revert mem; decide)
      simp [Text.exponentLength, other]
  | cons mark text =>
    cases text with
    | nil =>
      have none : Text.digitsLength rest = 0 := ends_digits [] rest stops
      rcases stops.nil_or_cons with rfl | ⟨c, mem, more, rfl⟩
      · rfl
      · have other : c ≠ '+' ∧ c ≠ '-' := by
          constructor <;> (rintro rfl; revert mem; decide)
        have nothing : Text.digitsLength [] = 0 := rfl
        simp [Text.exponentLength, other, none, nothing]
    | cons c text =>
      have plain := ends_digits (c :: text) rest stops
      have signed := ends_digits text rest stops
      grind [Text.exponentLength]

theorem munch_number : Munch numberLength where
  bounded text := by
    have whole := munch_digits.bounded
    have fraction := munch_fraction.bounded
    have exponent := munch_exponent.bounded
    grind [numberLength]
  cut text rest := by
    intro le
    cases text with
    | nil => exact (Nat.le_zero.1 le).symm
    | cons c text =>
      have whole := munch_digits.cut
      have fraction := munch_fraction.cut
      have exponent := munch_exponent.cut
      grind [numberLength]

theorem ends_number : Ends numberLength := by
  intro text rest stops
  have whole := ends_digits
  have fraction := ends_fraction
  have exponent := ends_exponent
  cases text with
  | nil =>
    have noWhole : Text.digitsLength rest = 0 := whole [] rest stops
    have noFraction : Text.fractionLength rest = 0 := fraction [] rest stops
    have unsigned : rest.head? ≠ some '-' := stops.head?_ne (by decide)
    simp only [numberLength, List.nil_append, unsigned, if_false, List.drop_zero, noWhole,
      Nat.add_zero, noFraction, if_true]
    rfl
  | cons c text =>
    have wholeLe := munch_digits.bounded
    have fractionLe := munch_fraction.bounded
    grind [numberLength, Ends]

/-- The marks: brackets, commas and the relations, each with the character that follows its first
one. -/
inductive Mark : Char → Option Char → Kind → Nat → Prop
  | lparen {next : Option Char} : Mark '(' next .lparen 1
  | rparen {next : Option Char} : Mark ')' next .rparen 1
  | lbrack {next : Option Char} : Mark '[' next .lbrack 1
  | rbrack {next : Option Char} : Mark ']' next .rbrack 1
  | comma {next : Option Char} : Mark ',' next .comma 1
  | equals {next : Option Char} : next ≠ some '=' → Mark '=' next .equals 1
  | doubled : Mark '=' (some '=') .equals 2
  | le : Mark '<' (some '=') .le 2
  | neq : Mark '<' (some '>') .neq 2
  | lt {next : Option Char} : next ≠ some '=' → next ≠ some '>' → Mark '<' next .lt 1
  | ge : Mark '>' (some '=') .ge 2
  | gt {next : Option Char} : next ≠ some '=' → Mark '>' next .gt 1
  | notEquals : Mark '!' (some '=') .notEquals 2

/-- A character before all ranges of a table is in none of them. -/
theorem inRanges_of_lt {table : List (Nat × Nat)} {bound : Nat}
    (beyond : ∀ range ∈ table, bound ≤ range.1) (low : c.toNat < bound) :
    Text.inRanges table c = false := by
  rw [Text.inRanges, List.any_eq_false]
  intro range mem
  have := beyond range mem
  simp
  omega

theorem isAlphabetic_of_lt (low : c.toNat < 170) : Text.isAlphabetic c = c.isAlpha := by
  have beyond : ∀ range ∈ Text.alphabeticRanges, 170 ≤ range.1 := by decide +kernel
  rw [Text.isAlphabetic, inRanges_of_lt beyond low, Bool.or_false]

/-- The characters that no part of a key holds, among those beside keys. -/
theorem continuesKey_mark (mem : c ∈ ['.', '[', ' ', '(', ')', ']', ',']) :
    continuesKey c = false := by
  have all : ['.', '[', ' ', '(', ')', ']', ','].all (fun c => !continuesKey c) = true := by
    decide +kernel
  simpa using List.all_eq_true.1 all c mem

theorem startsKey_mark (mem : c ∈ ['.', '-', ' ', '(', ')', ']', ',']) : startsKey c = false := by
  have all : ['.', '-', ' ', '(', ')', ']', ','].all (fun c => !startsKey c) = true := by
    simp (disch := decide) [startsKey, isAlphabetic_of_lt]
  simpa using List.all_eq_true.1 all c mem

theorem keyTailLength_dot (c : Char) (text : List Char) :
    keyTailLength ('.' :: c :: text) =
      if startsKey c || c.isDigit then 2 + keyTailLength text else 0 :=
  rfl

theorem keyTailLength_array (text : List Char) :
    keyTailLength ('[' :: ']' :: text) = 2 + keyTailLength text :=
  rfl

theorem keyTailLength_each (text : List Char) :
    keyTailLength ('[' :: '*' :: ']' :: text) = 3 + keyTailLength text :=
  rfl

theorem keyTailLength_point : keyTailLength ['.'] = 0 := by
  change (if continuesKey '.' then 1 + keyTailLength [] else 0) = 0
  rw [continuesKey_mark (by decide)]
  rfl

theorem keyTailLength_cons (dot : c ≠ '.') (mark : c ≠ '[') (text : List Char) :
    keyTailLength (c :: text) = if continuesKey c then 1 + keyTailLength text else 0 := by
  rw [keyTailLength.eq_def]
  split
  · next same => exact absurd (List.cons.inj same).1 dot
  · next same => exact absurd (List.cons.inj same).1 mark
  · next same => exact absurd (List.cons.inj same).1 mark
  · next same =>
    obtain ⟨rfl, rfl⟩ := List.cons.inj same
    rfl
  · next same => cases same

theorem keyTailLength_continues (continues : continuesKey c = true) (text : List Char) :
    keyTailLength (c :: text) = 1 + keyTailLength text := by
  have other : c ≠ '.' ∧ c ≠ '[' := by
    constructor <;> (rintro rfl; simp [continuesKey_mark] at continues)
  rw [keyTailLength_cons other.1 other.2, if_pos continues]

/-- An opening bracket continues a key only as the start of an array mark. -/
theorem keyTailLength_mark (text : List Char) :
    keyTailLength ('[' :: text) = 0 ∨
    (∃ more, text = ']' :: more ∧ keyTailLength ('[' :: text) = 2 + keyTailLength more) ∨
    ∃ more, text = '*' :: ']' :: more ∧ keyTailLength ('[' :: text) = 3 + keyTailLength more := by
  by_cases mark : ∃ more, text = ']' :: more
  · obtain ⟨more, rfl⟩ := mark
    exact .inr (.inl ⟨more, rfl, keyTailLength_array more⟩)
  by_cases star : ∃ more, text = '*' :: ']' :: more
  · obtain ⟨more, rfl⟩ := star
    exact .inr (.inr ⟨more, rfl, keyTailLength_each more⟩)
  refine .inl ?_
  rw [keyTailLength.eq_def]
  split
  · next same => exact absurd (List.cons.inj same).1 (by decide)
  · next more same => exact absurd ⟨more, (List.cons.inj same).2⟩ mark
  · next more same => exact absurd ⟨more, (List.cons.inj same).2⟩ star
  · next same =>
    obtain ⟨rfl, rfl⟩ := List.cons.inj same
    rw [continuesKey_mark (by decide)]
    rfl
  · next same => cases same

theorem munch_keyTail : Munch keyTailLength where
  bounded text := by
    fun_induction keyTailLength text <;> grind
  cut text rest := by
    intro le
    fun_induction keyTailLength text with
    | case1 c text continues ih => grind [keyTailLength_dot]
    | case2 c text other => grind [keyTailLength_dot]
    | case3 text ih => grind [keyTailLength_array]
    | case4 text ih => grind [keyTailLength_each]
    | case5 c text _ _ _ continues ih =>
      rw [List.cons_append, keyTailLength_continues continues] at le ⊢
      rw [ih (by simp at le; omega)]
    | case6 c text noDot noMark noStar other =>
      -- a dot or a mark that the text leaves open would take more than the text
      by_cases dot : c = '.'
      · cases text with
        | nil =>
          subst dot
          cases rest with
          | nil => exact keyTailLength_point.symm
          | cons d rest => grind [keyTailLength_dot]
        | cons d text => exact absurd rfl (noDot d text dot)
      · by_cases mark : c = '['
        · subst mark
          rw [List.cons_append] at le ⊢
          rcases keyTailLength_mark (text ++ rest) with none | ⟨more, same, two⟩ |
            ⟨more, same, three⟩
          · exact none.symm
          · rcases List.append_eq_cons_iff.1 same with ⟨rfl, _⟩ | ⟨left, rfl, _⟩
            · rw [two] at le
              exact absurd le (by simp; omega)
            · exact absurd rfl (noMark left rfl)
          · rcases List.append_eq_cons_iff.1 same with ⟨rfl, _⟩ | ⟨left, rfl, star⟩
            · rw [three] at le
              exact absurd le (by simp; omega)
            · rcases List.append_eq_cons_iff.1 star.symm with ⟨rfl, _⟩ | ⟨left, rfl, _⟩
              · rw [three] at le
                exact absurd le (by simp; omega)
              · exact absurd rfl (noStar left rfl)
        · rw [List.cons_append, keyTailLength_cons dot mark, if_neg other]
    | case7 => exact (Nat.le_zero.1 le).symm

theorem munch_key : Munch keyLength where
  bounded text := by
    have tail := munch_keyTail.bounded
    cases text <;> grind [keyLength]
  cut text rest := by
    intro le
    cases text with
    | nil => exact (Nat.le_zero.1 le).symm
    | cons c text =>
      have tail := munch_keyTail.cut text rest
      grind [keyLength]

/-- What starts a token: a mark, a quoted text or a word. -/
inductive Starts : Char → List Char → Kind → Nat → Prop
  | mark {c : Char} {text : List Char} {kind : Kind} {n : Nat} :
      Mark c text.head? kind n → Starts c text kind n
  | quoted {c : Char} {text : List Char} {n : Nat} : c = '\'' ∨ c = '"' →
      Text.quotedLength? c text = some n → Starts c text .quotedText (1 + n)
  | word {c : Char} {text : List Char} {kind : Kind} {n : Nat} : Text.isBlank c = false →
      c ∉ ['(', ')', '[', ']', ',', '=', '<', '>', '!', '\'', '"'] →
      (c = '/' → text.head? ≠ some '*') → wordAt (c :: text) = (.token kind, n) →
      Starts c text kind n

/-- Text that ends words does not go on with a key. -/
theorem keyTailLength_stops (stops : Stops rest) : keyTailLength rest = 0 := by
  rcases stops.nil_or_cons with rfl | ⟨c, mem, more, rfl⟩
  · rfl
  · have other : c ≠ '.' ∧ c ≠ '[' := by
      constructor <;> (rintro rfl; revert mem; decide)
    rw [keyTailLength_cons other.1 other.2, if_neg]
    simp [continuesKey_mark (List.mem_cons_of_mem _ (List.mem_cons_of_mem _ mem))]

/-- A text that ends words does not change a key that is the whole text before it, or one in a text
without array marks. -/
theorem keyTailLength_append {text : List Char} (stops : Stops rest)
    (whole : keyTailLength text = text.length ∨ '[' ∉ text) :
    keyTailLength (text ++ rest) = keyTailLength text := by
  fun_induction keyTailLength text with
  | case1 c text continues ih =>
    have tail := ih (by simp at whole; grind)
    rw [List.cons_append, List.cons_append, keyTailLength_dot, if_pos continues, tail]
  | case2 c text other =>
    rw [List.cons_append, List.cons_append, keyTailLength_dot, if_neg other]
  | case3 text ih =>
    have tail := ih (by simp at whole; grind)
    rw [List.cons_append, List.cons_append, keyTailLength_array, tail]
  | case4 text ih =>
    have tail := ih (by simp at whole; grind)
    rw [List.cons_append, List.cons_append, List.cons_append, keyTailLength_each, tail]
  | case5 c text _ _ _ continues ih =>
    have tail := ih (by simp at whole; grind)
    rw [List.cons_append, keyTailLength_continues continues, tail]
  | case6 c text noDot noMark noStar other =>
    have unmarked : c ≠ '[' := by
      rintro rfl
      simp at whole
    -- A dot at the end of the text is open, but what ends words starts no part of a key.
    by_cases dot : c = '.'
    · subst dot
      cases text with
      | cons d text => exact absurd rfl (noDot d text rfl)
      | nil =>
        rcases stops.nil_or_cons with rfl | ⟨d, mem, more, rfl⟩
        · exact keyTailLength_point
        · have start : startsKey d = false :=
            startsKey_mark (List.mem_cons_of_mem _ (List.mem_cons_of_mem _ mem))
          have all : [' ', '(', ')', ']', ','].all (fun d => !d.isDigit) = true := by decide
          have digit : d.isDigit = false := by simpa using List.all_eq_true.1 all d mem
          rw [List.cons_append, List.nil_append, keyTailLength_dot, start, digit]
          rfl
    · rw [List.cons_append, keyTailLength_cons dot unmarked, if_neg other]
  | case7 => exact keyTailLength_stops stops

theorem keyLength_append {text : List Char} (nonempty : text ≠ []) (stops : Stops rest)
    (whole : keyLength text = text.length ∨ '[' ∉ text) :
    keyLength (text ++ rest) = keyLength text := by
  cases text with
  | nil => exact absurd rfl nonempty
  | cons c text =>
    rw [List.cons_append, keyLength, keyLength]
    split
    · next starts =>
      rw [keyTailLength_append stops]
      rw [keyLength, if_pos starts] at whole
      simp at whole
      grind
    · rfl

theorem startsKey_digit (digit : c.isDigit = true) : startsKey c = false := by
  have range : 48 ≤ c.toNat ∧ c.toNat ≤ 57 := by
    simpa [Char.isDigit, UInt32.le_iff_toNat_le] using digit
  have letter : c.isAlpha = false := by
    change (decide (65 ≤ c.val ∧ c.val ≤ 90) ||
      decide (97 ≤ c.val) && decide (c.val ≤ 122)) = false
    simp [UInt32.le_iff_toNat_le]
    omega
  rw [startsKey, isAlphabetic_of_lt (by omega), letter]
  simp
  refine ⟨⟨?_, ?_⟩, ?_⟩ <;> (rintro rfl; revert digit; decide)

/-- Text that starts with a number does not start with a key. -/
theorem keyLength_number {text : List Char} (number : 0 < numberLength text) (rest : List Char) :
    keyLength (text ++ rest) = 0 := by
  cases text with
  | nil => exact absurd number (by decide)
  | cons c text =>
    have starts : startsKey c = false := by
      by_cases minus : c = '-'
      · exact startsKey_mark (by simp [minus])
      by_cases dot : c = '.'
      · exact startsKey_mark (by simp [dot])
      refine startsKey_digit (Decidable.byContradiction fun other => ?_)
      have noWhole : Text.digitsLength (c :: text) = 0 := by
        simp [Text.digitsLength, other]
      have noFraction : Text.fractionLength (c :: text) = 0 := by
        simp [Text.fractionLength, dot]
      simp [numberLength, minus, noWhole, noFraction] at number
    rw [List.cons_append, keyLength, if_neg (by simp [starts])]

/-- What a word is: the longest of number, key and free text, in this order where two are of one
length. -/
theorem wordAt_eq_token {text : List Char} :
    wordAt text = (.token kind, n) ↔
      (kind = .number ∧ n = numberLength text ∧ 0 < n ∧ keyLength text ≤ n ∧
        freeTextLength text ≤ n) ∨
      (kind = (Kind.ofKeyword? (String.ofList (text.take n))).getD .key ∧ n = keyLength text ∧
        numberLength text < n ∧ freeTextLength text ≤ n) ∨
      (kind = .freeText ∧ n = freeTextLength text ∧ numberLength text < n ∧
        keyLength text < n) := by
  unfold wordAt
  dsimp only
  split
  · next longest =>
    simp at longest ⊢
    grind
  · split
    · next other longest =>
      simp at other longest ⊢
      grind
    · split
      · next noNumber noKey some =>
        simp at noNumber noKey ⊢
        grind
      · next noNumber noKey none =>
        simp at noNumber noKey ⊢
        grind

/-- A word is told from its own characters. -/
theorem wordAt_cut {text : List Char} (word : wordAt (text ++ rest) = (.token kind, text.length)) :
    wordAt text = (.token kind, text.length) := by
  have number := munch_number.cut text rest
  have key := munch_key.cut text rest
  have free := munch_freeText.cut text rest
  rw [wordAt_eq_token] at word ⊢
  rw [List.take_left] at word
  rw [List.take_length]
  rcases word with numeral | keyed | freed
  · refine .inl ?_
    rwa [number (by omega), key (by omega), free (by omega)]
  · refine .inr (.inl ?_)
    rwa [number (by omega), key (by omega), free (by omega)]
  · refine .inr (.inr ?_)
    rwa [number (by omega), key (by omega), free (by omega)]

/-- Text that ends words does not change the word before it. -/
theorem wordAt_append {text : List Char} (stops : Stops rest)
    (word : wordAt text = (.token kind, text.length)) :
    wordAt (text ++ rest) = (.token kind, text.length) := by
  have number := ends_number text rest stops
  have free := ends_freeText text rest stops
  rw [wordAt_eq_token] at word ⊢
  rw [List.take_left, number, free]
  rw [List.take_length] at word
  rcases word with ⟨isNumber, whole, positive, _, freeLe⟩ | ⟨isKey, whole, less, freeLe⟩ |
    ⟨isFree, whole, less, keyLt⟩
  · have none := keyLength_number (whole ▸ positive) rest
    exact .inl ⟨isNumber, whole, positive, by omega, freeLe⟩
  · have nonempty : text ≠ [] := List.ne_nil_of_length_pos (by omega)
    have key := keyLength_append nonempty stops (.inl whole.symm)
    exact .inr (.inl ⟨isKey, by omega, less, freeLe⟩)
  · have nonempty : text ≠ [] := List.ne_nil_of_length_pos (by omega)
    have same : text.takeWhile (!endsFreeText ·) = text :=
      (List.takeWhile_sublist _).eq_of_length whole.symm
    have all : text.all (!endsFreeText ·) = true := same ▸ List.all_takeWhile
    have unmarked : '[' ∉ text := fun mem =>
      absurd (List.all_eq_true.1 all '[' mem) (by decide)
    have key := keyLength_append nonempty stops (.inr unmarked)
    exact .inr (.inr ⟨isFree, whole, less, by omega⟩)

theorem quotedLength?_bounded {text : List Char} (closed : Text.quotedLength? quote text = some n) :
    0 < n ∧ n ≤ text.length := by
  fun_induction Text.quotedLength? quote text generalizing n with
  | case1 => simp at closed
  | case2 c text ih =>
    obtain ⟨m, inner, rfl⟩ := Option.map_eq_some_iff.1 closed
    have := ih inner
    simp only [List.length_cons]
    omega
  | case3 text escaped =>
    obtain rfl := Option.some.inj closed
    simp
  | case4 c text escaped other ih =>
    obtain ⟨m, inner, rfl⟩ := Option.map_eq_some_iff.1 closed
    have := ih inner
    simp only [List.length_cons]
    omega

theorem quotedLength?_quote (quote : Char) (text : List Char) (plain : quote ≠ '\\') :
    Text.quotedLength? quote (quote :: text) = some 1 := by
  rw [Text.quotedLength?, if_pos rfl]
  exact fun _ _ same => absurd same plain

theorem quotedLength?_other (text : List Char) (plain : c ≠ '\\') (other : c ≠ quote) :
    Text.quotedLength? quote (c :: text) = (Text.quotedLength? quote text).map (1 + ·) := by
  rw [Text.quotedLength?, if_neg other]
  exact fun _ _ same => absurd same plain

/-- What follows a quoted text does not change it. -/
theorem quotedLength?_append {text : List Char} (plain : quote ≠ '\\')
    (closed : Text.quotedLength? quote text = some n) (rest : List Char) :
    Text.quotedLength? quote (text ++ rest) = some n := by
  fun_induction Text.quotedLength? quote text generalizing n with
  | case1 => simp at closed
  | case2 c text ih =>
    obtain ⟨m, inner, rfl⟩ := Option.map_eq_some_iff.1 closed
    rw [List.cons_append, List.cons_append, Text.quotedLength?, ih inner]
    rfl
  | case3 text escaped => rw [List.cons_append, quotedLength?_quote quote _ plain, closed]
  | case4 c text escaped other ih =>
    obtain ⟨m, inner, rfl⟩ := Option.map_eq_some_iff.1 closed
    by_cases slash : c = '\\'
    · cases text with
      | nil => simp [Text.quotedLength?] at inner
      | cons d text => exact absurd rfl (escaped d text slash)
    · rw [List.cons_append, quotedLength?_other _ slash other, ih inner]
      rfl

/-- A quoted text is told from its own characters. -/
theorem quotedLength?_cut {text : List Char} (plain : quote ≠ '\\')
    (closed : Text.quotedLength? quote (text ++ rest) = some n) (le : n ≤ text.length) :
    Text.quotedLength? quote text = some n := by
  fun_induction Text.quotedLength? quote text generalizing n with
  | case1 =>
    have := quotedLength?_bounded closed
    simp at le
    omega
  | case2 c text ih =>
    rw [List.cons_append, List.cons_append, Text.quotedLength?] at closed
    obtain ⟨m, inner, rfl⟩ := Option.map_eq_some_iff.1 closed
    rw [ih inner (by simp at le; omega)]
    rfl
  | case3 text escaped => rwa [List.cons_append, quotedLength?_quote quote _ plain] at closed
  | case4 c text escaped other ih =>
    by_cases slash : c = '\\'
    · subst slash
      match text, rest with
      | [], [] => simp [Text.quotedLength?, other] at closed
      | [], d :: rest =>
        -- the backslash would protect a character of the rest
        obtain ⟨m, inner, rfl⟩ := Option.map_eq_some_iff.1 closed
        simp at le
        omega
      | d :: text, rest => exact absurd rfl (escaped d text rfl)
    · rw [List.cons_append, quotedLength?_other _ slash other] at closed
      obtain ⟨m, inner, rfl⟩ := Option.map_eq_some_iff.1 closed
      rw [ih inner (by simp at le; omega)]
      rfl

theorem Mark.runAt_eq {text : List Char} (mark : Mark c text.head? kind n) :
    runAt (c :: text) = (.token kind, n) := by
  generalize next : text.head? = head at mark
  cases mark with
  | lparen => rfl
  | rparen => rfl
  | lbrack => rfl
  | rbrack => rfl
  | comma => rfl
  | equals other => exact congrArg (Prod.mk _) (if_neg (next ▸ other))
  | doubled => exact congrArg (Prod.mk _) (if_pos next)
  | le => exact if_pos next
  | neq => exact (if_neg (by simp [next])).trans (if_pos next)
  | lt other more => exact (if_neg (next ▸ other)).trans (if_neg (next ▸ more))
  | ge => exact if_pos next
  | gt other => exact if_neg (next ▸ other)
  | notEquals => exact if_pos next

theorem Starts.runAt_eq {text : List Char} (starts : Starts c text kind n) :
    runAt (c :: text) = (.token kind, n) := by
  cases starts with
  | mark mark => exact mark.runAt_eq
  | quoted quote closed =>
    rcases quote with rfl | rfl
    · exact congrArg (Option.elim · _ _) closed
    · exact congrArg (Option.elim · _ _) closed
  | word visible plain comment word =>
    unfold runAt
    dsimp only
    rw [if_neg (by simp [visible])]
    split <;> simp_all

/-- A quote starts a token only if there is one that closes it. -/
theorem Starts.of_quote {text : List Char} (quote : c = '\'' ∨ c = '"')
    (run : (Text.quotedLength? c text).elim (.stray, 1) (fun n => (.token .quotedText, 1 + n)) =
      (Role.token kind, n)) : Starts c text kind n := by
  cases closed : Text.quotedLength? c text with
  | none =>
    rw [closed] at run
    cases run
  | some m =>
    rw [closed] at run
    cases run
    exact .quoted quote closed

theorem runAt_eq_token {text : List Char} :
    runAt (c :: text) = (.token kind, n) ↔ Starts c text kind n := by
  refine ⟨fun run => ?_, Starts.runAt_eq⟩
  unfold runAt at run
  dsimp only at run
  split at run
  · cases run
  · next visible =>
    -- one case for each character that the definition singles out, in its order
    split at run
    · cases run; exact .mark .lparen
    · cases run; exact .mark .rparen
    · cases run; exact .mark .lbrack
    · cases run; exact .mark .rbrack
    · cases run; exact .mark .comma
    · split at run
      · next eq => cases run; exact .mark (eq ▸ .doubled)
      · next ne => cases run; exact .mark (.equals ne)
    · split at run
      · next eq => cases run; exact .mark (eq ▸ .le)
      · next ne =>
        split at run
        · next eq => cases run; exact .mark (eq ▸ .neq)
        · next other => cases run; exact .mark (.lt ne other)
    · split at run
      · next eq => cases run; exact .mark (eq ▸ .ge)
      · next ne => cases run; exact .mark (.gt ne)
    · split at run
      · next eq => cases run; exact .mark (eq ▸ .notEquals)
      · cases run
    · split at run
      · cases run
      · next open' => exact .word (by decide) (by decide) (fun _ => open') run
    · exact .of_quote (.inl rfl) run
    · exact .of_quote (.inr rfl) run
    · refine .word (by simpa using visible) ?_ ?_ run <;> simp_all

/-- A mark is told from its own characters. -/
theorem Mark.cut {text : List Char} (mark : Mark c (text ++ rest).head? kind (text.length + 1)) :
    Mark c text.head? kind (text.length + 1) := by
  match text with
  | [] =>
    rw [List.nil_append] at mark
    generalize rest.head? = next at mark
    cases mark with
    | lparen => exact .lparen
    | rparen => exact .rparen
    | lbrack => exact .lbrack
    | rbrack => exact .rbrack
    | comma => exact .comma
    | equals _ => exact .equals (by simp)
    | lt _ _ => exact .lt (by simp) (by simp)
    | gt _ => exact .gt (by simp)
  | d :: text => exact mark

/-- Text that ends words does not change the mark before it. -/
theorem Mark.append {text : List Char} (stops : Stops rest)
    (mark : Mark c text.head? kind (text.length + 1)) :
    Mark c (text ++ rest).head? kind (text.length + 1) := by
  match text with
  | [] =>
    rw [List.nil_append]
    have equal : rest.head? ≠ some '=' := stops.head?_ne (by decide)
    have greater : rest.head? ≠ some '>' := stops.head?_ne (by decide)
    cases mark with
    | lparen => exact .lparen
    | rparen => exact .rparen
    | lbrack => exact .lbrack
    | rbrack => exact .rbrack
    | comma => exact .comma
    | equals _ => exact .equals equal
    | lt _ _ => exact .lt equal greater
    | gt _ => exact .gt equal
  | d :: text => exact mark

theorem Starts.pos {text : List Char} (starts : Starts c text kind n) : 0 < n := by
  cases starts with
  | mark mark =>
    generalize text.head? = next at mark
    cases mark <;> decide
  | quoted _ _ => omega
  | word _ _ _ word =>
    rw [wordAt_eq_token] at word
    omega

theorem Starts.bounded {text : List Char} (starts : Starts c text kind n) :
    n ≤ text.length + 1 := by
  cases starts with
  | mark mark =>
    cases text with
    | nil => cases mark <;> decide
    | cons d text =>
      generalize (d :: text).head? = next at mark
      cases mark <;> simp
  | quoted _ closed =>
    have := quotedLength?_bounded closed
    omega
  | word _ _ _ word =>
    have number := munch_number.bounded (c :: text)
    have key := munch_key.bounded (c :: text)
    have free := munch_freeText.bounded (c :: text)
    rw [wordAt_eq_token] at word
    simp only [List.length_cons] at number key free
    omega

theorem Starts.cut {text : List Char} (starts : Starts c (text ++ rest) kind (text.length + 1)) :
    Starts c text kind (text.length + 1) := by
  generalize same : text.length + 1 = n at starts
  cases starts with
  | mark mark => exact .mark (same ▸ (same ▸ mark : Mark c _ kind _).cut)
  | quoted quote closed =>
    have plain : c ≠ '\\' := by rcases quote with rfl | rfl <;> decide
    exact .quoted quote (quotedLength?_cut plain closed (by omega))
  | word visible plain comment word =>
    subst same
    refine .word visible plain (fun slash star => ?_) (wordAt_cut word)
    refine comment slash ?_
    rw [List.head?_append, star, Option.some_or]

theorem Starts.append {text : List Char} (stops : Stops rest)
    (starts : Starts c text kind (text.length + 1)) :
    Starts c (text ++ rest) kind (text.length + 1) := by
  generalize same : text.length + 1 = n at starts
  cases starts with
  | mark mark => exact .mark (same ▸ (same ▸ mark : Mark c _ kind _).append stops)
  | quoted quote closed =>
    have plain : c ≠ '\\' := by rcases quote with rfl | rfl <;> decide
    exact .quoted quote (quotedLength?_append plain closed rest)
  | word visible plain comment word =>
    subst same
    refine .word visible plain (fun slash => ?_) (wordAt_append stops word)
    cases text with
    | nil => exact stops.head?_ne (by decide)
    | cons d text => exact comment slash

theorem runAt_token_nonempty {text : List Char}
    (run : runAt (text ++ rest) = (.token kind, text.length)) : text ≠ [] := by
  rintro rfl
  cases rest with
  | nil => exact absurd (congrArg Prod.fst run) Role.noConfusion
  | cons c rest => exact absurd (runAt_eq_token.1 run).pos (by simp)

/-- A token is told from its own characters. -/
theorem runAt_cut {text : List Char} (run : runAt (text ++ rest) = (.token kind, text.length)) :
    runAt text = (.token kind, text.length) := by
  cases text with
  | nil => exact absurd rfl (runAt_token_nonempty run)
  | cons c text => exact runAt_eq_token.2 (runAt_eq_token.1 run).cut

/-- Text that ends words does not change the token before it. -/
theorem runAt_append {text : List Char} (stops : Stops rest)
    (run : runAt text = (.token kind, text.length)) :
    runAt (text ++ rest) = (.token kind, text.length) := by
  cases text with
  | nil => exact absurd (congrArg Prod.fst run) Role.noConfusion
  | cons c text => exact runAt_eq_token.2 ((runAt_eq_token.1 run).append stops)

/-- The words of a text that has no stray characters. -/
inductive Cuts : List Char → List Word → Prop
  | nil : Cuts [] []
  | gap {c : Char} {text : List Char} {n : Nat} {words : List Word} :
      runAt (c :: text) = (.gap, n) → Cuts (text.drop (n - 1)) words → Cuts (c :: text) words
  | token {text rest : List Char} {kind : Kind} {words : List Word} :
      runAt (text ++ rest) = (.token kind, text.length) → Cuts rest words →
      Cuts (text ++ rest) (.ofText kind (String.ofList text) :: words)

/-- The characters of a token, and those after it. -/
theorem runAt_split {text : List Char} (run : runAt (c :: text) = (.token kind, n)) :
    c :: text = (c :: text.take (n - 1)) ++ text.drop (n - 1) ∧
      (c :: text.take (n - 1)).length = n := by
  have starts := runAt_eq_token.1 run
  have positive := starts.pos
  have bounded := starts.bounded
  refine ⟨by simp, ?_⟩
  rw [List.length_cons, List.length_take]
  omega

/-- Text without stray characters is cut into the words of its tokens. -/
theorem cuts_of_runsFrom (place : Text.Place) (start : Nat) (text : List Char)
    (clean : (runsFrom place start text).filterMap Run.error? = []) :
    Cuts text (((runsFrom place start text).filterMap Run.token?).map Token.word) := by
  fun_induction runsFrom place start text with
  | case1 => exact .nil
  | case2 place start c text role length run chars ih =>
    cases role with
    | gap => exact .gap run (ih clean)
    | stray => simp [Run.error?, chars] at clean
    | token kind =>
      obtain ⟨whole, same⟩ := runAt_split run
      rw [whole]
      refine .token ?_ (ih clean)
      rw [← whole, run, same]

/-- Text that is cut into words has no stray characters, and its tokens are those words. -/
theorem runsFrom_of_cuts {text : List Char} (cuts : Cuts text words) (place : Text.Place)
    (start : Nat) :
    (runsFrom place start text).filterMap Run.error? = [] ∧
      ((runsFrom place start text).filterMap Run.token?).map Token.word = words := by
  induction cuts generalizing place start with
  | nil =>
    rw [runsFrom]
    exact ⟨rfl, rfl⟩
  | gap run _ ih =>
    rw [runsFrom, run]
    exact ih _ _
  | @token text rest kind words run _ ih =>
    cases text with
    | nil => exact absurd rfl (runAt_token_nonempty run)
    | cons c text =>
      rw [List.cons_append] at run ⊢
      rw [runsFrom, run]
      simp only [List.length_cons, Nat.add_one_sub_one, List.take_left, List.drop_left]
      obtain ⟨clean, same⟩ := ih (place.after (c :: text)) (start + (text.length + 1))
      exact ⟨clean, congrArg (List.cons (Word.ofText kind (String.ofList (c :: text)))) same⟩

/-- A text has no stray characters and tokens of the given words exactly when it is cut into
them. -/
theorem cuts_iff {text : String} :
    Cuts text.toList words ↔ (lex text).errors = [] ∧ (lex text).tokens.map Token.word = words := by
  constructor
  · intro cuts
    exact runsFrom_of_cuts cuts .start 0
  · rintro ⟨clean, rfl⟩
    exact cuts_of_runsFrom .start 0 text.toList clean

/-- A word whose text, where it is not fixed, is one token of its kind. -/
def Word.Whole (word : Word) : Prop :=
  word.kind.isOpen = true →
    runAt word.text.toList = (.token word.kind, word.text.toList.length)

theorem Word.whole_fixed (closed : kind.isOpen = false) : (fixed kind).Whole := by
  intro opened
  rw [fixed_kind, closed] at opened
  cases opened

theorem Cuts.whole {text : List Char} (cuts : Cuts text words) : ∀ word ∈ words, word.Whole := by
  induction cuts with
  | nil => simp
  | gap _ _ ih => exact ih
  | @token text rest kind words run _ ih =>
    refine List.forall_mem_cons.2 ⟨fun opened => ?_, ih⟩
    have textOf : (Word.ofText kind (String.ofList text)).text = String.ofList text :=
      if_pos opened
    rw [textOf, String.toList_ofList]
    exact runAt_cut run

end TelemetryQuery.Filter
