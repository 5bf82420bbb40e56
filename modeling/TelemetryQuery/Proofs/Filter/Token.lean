import TelemetryQuery.Proofs.Field.KeyText
import TelemetryQuery.Proofs.Number.Display
import TelemetryQuery.Proofs.Text.Class
import TelemetryQuery.Proofs.Text.Quoted
/- The texts of fields, numbers and quoted texts are single tokens. -/
namespace TelemetryQuery.Filter

/-- What may follow the first character of a key. -/
inductive KeyTail : List Char → Prop
  | nil : KeyTail []
  | char {c : Char} {text : List Char} : continuesKey c = true → KeyTail text →
      KeyTail (c :: text)
  | part {c : Char} {text : List Char} : (startsKey c || c.isDigit) = true → KeyTail text →
      KeyTail ('.' :: c :: text)
  | array {text : List Char} : KeyTail text → KeyTail ('[' :: ']' :: text)
  | each {text : List Char} : KeyTail text → KeyTail ('[' :: '*' :: ']' :: text)

theorem keyTail_iff {text : List Char} : KeyTail text ↔ keyTailLength text = text.length := by
  constructor
  · intro tail
    induction tail with
    | nil => rfl
    | char continues _ ih =>
      rw [keyTailLength_continues continues, ih, List.length_cons, Nat.add_comm]
    | part starts _ ih =>
      rw [keyTailLength_dot, if_pos starts, ih]
      simp
      omega
    | array _ ih =>
      rw [keyTailLength_array, ih]
      simp
      omega
    | each _ ih =>
      rw [keyTailLength_each, ih]
      simp
      omega
  · intro whole
    fun_induction keyTailLength text with
    | case1 c text starts ih => exact .part starts (ih (by simp at whole; omega))
    | case2 c text other => simp at whole
    | case3 text ih => exact .array (ih (by simp at whole; omega))
    | case4 text ih => exact .each (ih (by simp at whole; omega))
    | case5 c text _ _ _ continues ih => exact .char continues (ih (by simp at whole; omega))
    | case6 c text _ _ _ other => simp at whole
    | case7 => exact .nil

namespace KeyTail

variable {text rest : List Char}

theorem append (first : KeyTail text) (last : KeyTail rest) : KeyTail (text ++ rest) := by
  induction first with
  | nil => exact last
  | char continues _ ih => exact .char continues ih
  | part starts _ ih => exact .part starts ih
  | array _ ih => exact .array ih
  | each _ ih => exact .each ih

/-- What stands before the first dot or array mark may be left out. -/
theorem drop (undotted : '.' ∉ text) (unmarked : '[' ∉ text) (whole : KeyTail (text ++ rest)) :
    KeyTail rest := by
  induction text with
  | nil => exact whole
  | cons c text ih =>
    simp only [List.mem_cons, not_or] at undotted unmarked
    rw [List.cons_append] at whole
    generalize tail : text ++ rest = all at whole
    cases whole with
    | char _ later => exact ih undotted.2 unmarked.2 (tail ▸ later)
    | part _ _ => exact absurd rfl undotted.1
    | array _ => exact absurd rfl unmarked.1
    | each _ => exact absurd rfl unmarked.1

/-- A key may be cut before a colon. -/
theorem beforeColon (whole : KeyTail (text ++ ':' :: rest)) : KeyTail text := by
  generalize same : text ++ ':' :: rest = all at whole
  induction whole generalizing text with
  | nil => simp at same
  | char continues _ ih =>
    rcases List.append_eq_cons_iff.1 same with ⟨rfl, _⟩ | ⟨left, rfl, later⟩
    · exact .nil
    · exact .char continues (ih later.symm)
  | part starts _ ih =>
    match text with
    | [] => simp at same
    | [d] =>
      obtain ⟨-, rfl, -⟩ : d = '.' ∧ ':' = _ ∧ rest = _ := by simpa using same
      exact absurd starts (by decide +kernel)
    | d :: e :: left =>
      obtain ⟨rfl, rfl, later⟩ : d = '.' ∧ e = _ ∧ left ++ ':' :: rest = _ := by simpa using same
      exact .part starts (ih later)
  | array _ ih =>
    match text with
    | [] => simp at same
    | [d] => simp at same
    | d :: e :: left =>
      obtain ⟨rfl, rfl, later⟩ : d = '[' ∧ e = ']' ∧ left ++ ':' :: rest = _ := by
        simpa using same
      exact .array (ih later)
  | each _ ih =>
    match text with
    | [] => simp at same
    | [d] => simp at same
    | [d, e] => simp at same
    | d :: e :: f :: left =>
      obtain ⟨rfl, rfl, rfl, later⟩ : d = '[' ∧ e = '*' ∧ f = ']' ∧ left ++ ':' :: rest = _ := by
        simpa using same
      exact .each (ih later)

theorem ofAll (continues : ∀ c ∈ text, continuesKey c = true) : KeyTail text := by
  induction text with
  | nil => exact .nil
  | cons c text ih =>
    obtain ⟨first, later⟩ := List.forall_mem_cons.1 continues
    exact .char first (ih later)

end KeyTail

/-- The words that the grammar reserves, in lower case. -/
def keywords : List String :=
  ["like", "ilike", "between", "exists", "exist", "regexp", "contains", "contain", "in", "not",
    "and", "or", "hastoken", "has", "hasany", "hasall", "true", "false"]

theorem Kind.ofKeyword?_some {word : String} {kind : Kind} (found : ofKeyword? word = some kind) :
    Text.lower word ∈ keywords ∧ kind ≠ .key := by
  unfold ofKeyword? at found
  split at found <;> simp_all [keywords] <;> (rintro rfl; simp at found)

/-- Words with a dot or a colon are not reserved. -/
theorem Kind.ofKeyword?_marked {word : String} {mark : Char} (mem : mark ∈ ['.', ':'])
    (within : mark ∈ word.toList) : ofKeyword? word = none := by
  cases found : ofKeyword? word with
  | none => rfl
  | some kind =>
    have plain : ∀ word ∈ keywords, '.'.toLower ∉ word.toList ∧ ':'.toLower ∉ word.toList := by
      decide
    obtain ⟨undotted, uncoloned⟩ := plain _ (ofKeyword?_some found).1
    have lowered := Text.toLower_mem rfl within
    simp only [List.mem_cons, List.not_mem_nil, or_false] at mem
    rcases mem with rfl | rfl
    · exact absurd lowered undotted
    · exact absurd lowered uncoloned

/-- A character of a class without blanks is not blank. -/
theorem isBlank_of_class {kind : Char → Bool}
    (blanks : ∀ range ∈ Text.blankRanges, ∀ n ∈ List.range' range.1 (range.2 + 1 - range.1),
      kind (Char.ofNat n) = false)
    {c : Char} (within : kind c = true) : Text.isBlank c = false := by
  cases blank : Text.isBlank c with
  | false => rfl
  | true =>
    obtain ⟨range, mem, bounds⟩ := List.any_eq_true.1 blank
    simp only [Bool.and_eq_true, decide_eq_true_eq] at bounds
    have none := blanks range mem c.toNat (by rw [List.mem_range'_1]; omega)
    rw [Char.ofNat_toNat, within] at none
    cases none

/-- The characters that start quoted texts, comments and tokens which are no words. -/
def marks : List Char :=
  ['(', ')', '[', ']', ',', '=', '<', '>', '!', '\'', '"', '/']

theorem isBlank_of_startsKey {c : Char} (starts : startsKey c = true) :
    Text.isBlank c = false := by
  cases blank : Text.isBlank c with
  | false => rfl
  | true =>
    simp only [startsKey, Text.isAlphabetic_blank blank, Bool.false_or, Bool.or_eq_true,
      beq_iff_eq] at starts
    obtain (rfl | rfl) | rfl := starts <;> cases blank

/-- A word may start with any character of a class without blanks and marks. -/
theorem runAt_word {kind : Char → Bool} (unmarked : marks.all (fun c => !kind c) = true) {c : Char}
    (visible : Text.isBlank c = false) (starts : kind c = true) {text : List Char} {token : Kind}
    {n : Nat} (word : wordAt (c :: text) = (.token token, n)) :
    runAt (c :: text) = (.token token, n) := by
  have other : c ∉ marks := by
    intro mem
    have outside := List.all_eq_true.1 unmarked c mem
    rw [starts] at outside
    cases outside
  refine runAt_eq_token.2 (.word visible ?_ ?_ word)
  · exact fun mem => other (by simp [marks] at mem ⊢; grind)
  · rintro rfl
    exact absurd other (by decide)

/-- Text that starts and goes on like a key. -/
def KeyShaped (text : List Char) : Prop :=
  ∃ c tail, text = c :: tail ∧ startsKey c = true ∧ KeyTail tail

/-- The keys are the texts of that shape that are not reserved. -/
theorem runAt_key_iff {text : String} :
    runAt text.toList = (.token .key, text.toList.length) ↔
      KeyShaped text.toList ∧ Kind.ofKeyword? text = none := by
  constructor
  · intro run
    have word : ∃ c tail, text.toList = c :: tail ∧
        wordAt text.toList = (.token .key, text.toList.length) := by
      cases chars : text.toList with
      | nil =>
        rw [chars] at run
        exact absurd (congrArg Prod.fst run) Role.noConfusion
      | cons c tail =>
        rw [chars] at run
        have starts := runAt_eq_token.1 run
        generalize (c :: tail).length = n at starts
        cases starts with
        | mark mark =>
          generalize tail.head? = next at mark
          cases mark
        | word _ _ _ word => exact ⟨c, tail, rfl, word⟩
    obtain ⟨c, tail, chars, word⟩ := word
    rcases wordAt_eq_token.1 word with ⟨number, _⟩ | ⟨kind, whole, _, _⟩ | ⟨free, _⟩
    · cases number
    · rw [chars, keyLength] at whole
      rw [List.take_length, String.ofList_toList] at kind
      refine ⟨⟨c, tail, chars, ?_⟩, ?_⟩
      · split at whole
        · next starts => exact ⟨starts, keyTail_iff.2 (by simp at whole; omega)⟩
        · simp at whole
      · cases found : Kind.ofKeyword? text with
        | none => rfl
        | some other =>
          rw [found] at kind
          exact absurd kind.symm (Kind.ofKeyword?_some found).2
    · cases free
  · rintro ⟨⟨c, tail, chars, starts, tailKey⟩, plain⟩
    have whole : keyLength text.toList = text.toList.length := by
      rw [chars, keyLength, if_pos starts, keyTail_iff.1 tailKey, List.length_cons, Nat.add_comm]
    have number : numberLength text.toList = 0 := by
      refine Nat.eq_zero_of_not_pos fun positive => ?_
      have none := keyLength_number positive []
      rw [List.append_nil, whole, chars] at none
      simp at none
    have word : wordAt text.toList = (.token .key, text.toList.length) := by
      refine wordAt_eq_token.2 (.inr (.inl ⟨?_, whole.symm, ?_, munch_freeText.bounded _⟩))
      · rw [List.take_length, String.ofList_toList, plain]
        rfl
      · rw [number, chars]
        simp
    rw [chars] at word ⊢
    have unmarked : marks.all (fun c => !startsKey c) = true := by
      simp (disch := decide) [marks, startsKey, isAlphabetic_of_lt]
    exact runAt_word unmarked (isBlank_of_startsKey starts) starts word

section Renaming

open Field.Key (Retyped Renamed)

variable {text other : List Char}

/-- A name of a type goes on like a key. -/
theorem keyTail_type (type : Field.DataType) : KeyTail (':' :: type.text.toList) := by
  have names : ∀ type ∈ [Field.DataType.string, .bool, .number, .unspecified],
      (':' :: type.text.toList).all continuesKey = true := by decide +kernel
  exact .ofAll (List.all_eq_true.1 (names type (by cases type <;> decide)))

theorem keyTail_retyped (retyped : Retyped text other) {lead : List Char}
    (tail : KeyTail (lead ++ text)) : KeyTail (lead ++ other) := by
  cases retyped with
  | same => exact tail
  | @type stem _ type _ =>
    rw [← List.append_assoc] at tail ⊢
    exact tail.beforeColon.append (keyTail_type type)

theorem keyShaped_context {context : Field.Context} (specified : context ≠ .unspecified) :
    KeyShaped context.text.toList := by
  have names : ∀ context ∈ [Field.Context.resource, .scope, .attributes, .span, .log, .metric,
      .trace, .event, .body], (context.text.toList.head?.any startsKey &&
        context.text.toList.tail.all continuesKey) = true := by decide +kernel
  have named := names context (by cases context <;> simp_all)
  cases chars : context.text.toList with
  | nil => simp [chars] at named
  | cons c tail =>
    simp [chars] at named
    exact ⟨c, tail, rfl, named.1, .ofAll named.2⟩

theorem KeyShaped.retyped (shaped : KeyShaped text) (retyped : Retyped text other) :
    KeyShaped other := by
  cases retyped with
  | same => exact shaped
  | @type stem tail type _ =>
    obtain ⟨c, rest, chars, starts, tailKey⟩ := shaped
    cases stem with
    | nil =>
      obtain ⟨rfl, -⟩ := List.cons.inj chars
      exact absurd starts (by decide +kernel)
    | cons d stem =>
      obtain ⟨rfl, rfl⟩ := List.cons.inj chars
      exact ⟨d, _, rfl, starts, tailKey.beforeColon.append (keyTail_type type)⟩

theorem KeyShaped.renamed (shaped : KeyShaped text) (renamed : Renamed text other) :
    KeyShaped other := by
  cases renamed with
  | plain retyped => exact shaped.retyped retyped
  | @context head rest other context undotted found retyped =>
    obtain ⟨c, tail, chars, starts, tailKey⟩ := shaped
    have named := keyShaped_context (Field.Context.ofName?_ne_unspecified found)
    obtain ⟨d, name, nameChars, nameStarts, nameTail⟩ := named
    cases head with
    | nil =>
      obtain ⟨rfl, -⟩ := List.cons.inj chars
      exact absurd starts (by decide +kernel)
    | cons e head =>
      obtain ⟨rfl, rfl⟩ := List.cons.inj chars
      have unmarked := Field.Context.ofName?_unmarked found
      rw [String.toList_ofList] at unmarked
      simp only [List.mem_cons, not_or] at undotted unmarked
      have dotted : KeyTail (['.'] ++ rest) := tailKey.drop undotted.2 unmarked.2
      rw [nameChars]
      exact ⟨d, name ++ '.' :: other, rfl, nameStarts,
        nameTail.append (keyTail_retyped retyped dotted)⟩

/-- A text is changed only where it has a dot or a colon. -/
theorem renamed_marked (renamed : Renamed text other) :
    other = text ∨ ∃ mark ∈ ['.', ':'], mark ∈ other := by
  cases renamed with
  | plain retyped =>
    cases retyped with
    | same => exact .inl rfl
    | type _ => exact .inr ⟨':', by decide, by simp⟩
  | context _ _ _ => exact .inr ⟨'.', by decide, by simp⟩

end Renaming

/-- A field that a key names has a text that is a key, too. -/
theorem runAt_toText {text : String} (run : runAt text.toList = (.token .key, text.toList.length)) :
    runAt (Field.Key.ofText text).toText.toList =
      (.token .key, (Field.Key.ofText text).toText.toList.length) := by
  obtain ⟨shaped, plain⟩ := runAt_key_iff.1 run
  have renamed := (Field.Key.toText_renamed text).1
  refine runAt_key_iff.2 ⟨shaped.renamed renamed, ?_⟩
  rcases renamed_marked renamed with same | ⟨mark, mem, within⟩
  · rw [String.toList_injective same]
    exact plain
  · exact Kind.ofKeyword?_marked mem within

section Numbers

variable {whole fraction : List Char}

theorem digitsLength_append (numeric : ∀ c ∈ whole, c.isDigit = true) (rest : List Char) :
    Text.digitsLength (whole ++ rest) = whole.length + Text.digitsLength rest := by
  rw [Text.digitsLength, List.takeWhile_append_of_pos numeric, List.length_append,
    Text.digitsLength]

/-- A sign, digits and a fraction are a number from end to end. -/
theorem numberLength_plain (negative : Bool) (nonempty : whole ≠ [])
    (numeric : ∀ c ∈ whole ++ fraction, c.isDigit = true) :
    numberLength (Number.sign negative ++ Number.plain whole fraction) =
      (Number.sign negative ++ Number.plain whole fraction).length := by
  obtain ⟨wholeNumeric, fractionNumeric⟩ := List.forall_mem_append.1 numeric
  generalize rest : (if fraction.isEmpty then [] else '.' :: fraction) = tail
  have noDigits : Text.digitsLength tail = 0 := by
    rw [← rest]
    split <;> rfl
  have pointed : Text.fractionLength tail = tail.length := by
    rw [← rest]
    split
    · rfl
    · next some =>
      have all : Text.digitsLength (fraction ++ []) = fraction.length :=
        digitsLength_append fractionNumeric []
      rw [List.append_nil] at all
      rw [List.isEmpty_iff, ← List.length_eq_zero_iff] at some
      rw [Text.fractionLength, all, if_neg some, List.length_cons, Nat.add_comm]
  have digits : Text.digitsLength (whole ++ tail) = whole.length := by
    rw [digitsLength_append wholeNumeric, noDigits, Nat.add_zero]
  have point : Text.fractionLength ((whole ++ tail).drop whole.length) = tail.length := by
    rw [List.drop_left, pointed]
  have ended : Text.exponentLength ((whole ++ tail).drop (whole.length + tail.length)) = 0 := by
    rw [← List.length_append, List.drop_length]
    rfl
  have positive : whole.length + tail.length ≠ 0 := by
    have := List.length_pos_iff.2 nonempty
    omega
  rw [Number.plain, rest]
  cases negative with
  | true =>
    have signed : ∀ n, List.drop (1 + n) ('-' :: (whole ++ tail)) = (whole ++ tail).drop n :=
      fun n => by rw [Nat.add_comm, List.drop_succ_cons]
    have dropSign : List.drop 1 ('-' :: (whole ++ tail)) = whole ++ tail := rfl
    simp only [Number.sign, if_true, List.cons_append, List.nil_append, numberLength,
      List.head?_cons, dropSign, digits, signed, point, Nat.add_assoc, ended, if_neg positive]
    simp
    omega
  | false =>
    have unsigned : (whole ++ tail).head? ≠ some '-' := by
      cases whole with
      | nil => exact absurd rfl nonempty
      | cons c whole =>
        have digit := wholeNumeric c (by simp)
        simpa using Number.digit_ne (d := '-') digit rfl
    simp only [Number.sign, Bool.false_eq_true, if_false, List.nil_append, numberLength, unsigned,
      List.drop_zero, digits, Nat.zero_add, point, ended, if_neg positive]
    simp

/-- A character that may start a number. -/
def startsNumber (c : Char) : Bool :=
  c.isDigit || c == '-'

theorem runAt_plain (negative : Bool) (nonempty : whole ≠ [])
    (numeric : ∀ c ∈ whole ++ fraction, c.isDigit = true) :
    runAt (Number.sign negative ++ Number.plain whole fraction) =
      (.token .number, (Number.sign negative ++ Number.plain whole fraction).length) := by
  have length := numberLength_plain negative nonempty numeric
  have first : ∃ c text, Number.sign negative ++ Number.plain whole fraction = c :: text ∧
      startsNumber c = true := by
    cases negative with
    | true => exact ⟨'-', _, rfl, rfl⟩
    | false =>
      cases whole with
      | nil => exact absurd rfl nonempty
      | cons c whole => exact ⟨c, _, rfl, by rw [startsNumber, numeric c (by simp)]; rfl⟩
  obtain ⟨c, text, chars, starts⟩ := first
  rw [chars] at length ⊢
  have word : wordAt (c :: text) = (.token .number, (c :: text).length) :=
    wordAt_eq_token.2 (.inl ⟨rfl, length.symm, by simp, munch_key.bounded _,
      munch_freeText.bounded _⟩)
  exact runAt_word (by decide) (isBlank_of_class (by decide +kernel) starts) starts word

/-- The notation of a finite number is a number. -/
theorem runAt_display (negative : Bool) {units : Nat} (held : Number.Held units)
    (bounded : units < 2 ^ 2098) :
    runAt (Number.display (.finite negative units)).toList =
      (.token .number, (Number.display (.finite negative units)).toList.length) := by
  obtain ⟨whole, fraction, shown, nonempty, numeric, _⟩ :=
    Number.display_plain negative held bounded
  rw [shown, String.toList_ofList]
  exact runAt_plain negative nonempty numeric

end Numbers

theorem runAt_quote (text : String) :
    runAt (Text.quote text).toList = (.token .quotedText, (Text.quote text).toList.length) := by
  have closed := Text.quotedLength?_escape text.toList []
  rw [Text.quote, String.toList_ofList, List.cons_append]
  have run := runAt_eq_token.2 (.quoted (.inl rfl) closed)
  rw [run]
  simp
  omega

end TelemetryQuery.Filter
