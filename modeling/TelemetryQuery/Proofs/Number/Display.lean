import TelemetryQuery.Number.Format
import TelemetryQuery.Proofs.Number.Rounding
/- The plain notation of a finite number is read back as that number. -/
namespace TelemetryQuery.Number

variable {c : Char} {units : Nat}

/-- Digits, and a point with digits after it if there are any. -/
def plain (whole fraction : List Char) : List Char :=
  whole ++ if fraction.isEmpty then [] else '.' :: fraction

@[simp]
theorem digitsValue_nil (lead : Nat) : digitsValue lead [] = lead :=
  rfl

@[simp]
theorem digitsValue_append (lead : Nat) (a b : List Char) :
    digitsValue lead (a ++ b) = digitsValue (digitsValue lead a) b :=
  List.foldl_append

theorem digitsValue_zeros (lead k : Nat) :
    digitsValue lead (List.replicate k '0') = lead * 10 ^ k := by
  induction k generalizing lead with
  | zero => simp [digitsValue]
  | succ k ih =>
    have step : digitsValue lead (List.replicate (k + 1) '0') =
        digitsValue (10 * lead + 0) (List.replicate k '0') := rfl
    rw [step, ih, Nat.pow_succ, Nat.add_zero]
    ac_rfl

theorem digitsValue_toDigits (n : Nat) : digitsValue 0 (Nat.toDigits 10 n) = n :=
  Nat.ofDigitChars_ten_toDigits

/-- The digits without the zeros at their end, and how many zeros there are. -/
theorem trailingZeros (digits : List Char) :
    ∃ zeros,
      digits = (digits.reverse.dropWhile (· == '0')).reverse ++ List.replicate zeros '0' := by
  refine ⟨(digits.reverse.takeWhile (· == '0')).length, ?_⟩
  have ended : digits.reverse.takeWhile (· == '0') =
      List.replicate (digits.reverse.takeWhile (· == '0')).length '0' := by
    refine List.eq_replicate_of_mem fun c mem => ?_
    have zero := List.all_eq_true.1 List.all_takeWhile c mem
    simpa using zero
  have whole := congrArg List.reverse
    (List.takeWhile_append_dropWhile (p := (· == '0')) (l := digits.reverse))
  rw [List.reverse_append, List.reverse_reverse, ended, List.reverse_replicate] at whole
  exact whole.symm

/-- The significant digits of a positive size read as it, with the point where it is said to be. -/
theorem significant_reads {tie : Tie} (held : Held units) (positive : 0 < units)
    (bounded : units < 2 ^ 2098) {digits : List Char} {point : Int}
    (found : significant tie units = (digits, point)) :
    digits ≠ [] ∧ (∀ c ∈ digits, c.isDigit = true) ∧
      ofDecimal false (digitsValue 0 digits) (point - digits.length) = finite false units := by
  have reads := shortest_readsAs tie held positive bounded
  rw [Decimal.readsAs, decide_eq_true_eq] at reads
  simp only [significant, Prod.mk.injEq] at found
  generalize shortest tie units = d at reads found
  obtain ⟨kept, rfl⟩ := found
  obtain ⟨zeros, split⟩ := trailingZeros (Nat.toDigits 10 d.digits)
  rw [kept] at split
  have value : d.digits = digitsValue 0 digits * 10 ^ zeros := by
    rw [← digitsValue_zeros, ← digitsValue_append, ← split, digitsValue_toDigits]
  have read : ofDecimal false (digitsValue 0 digits)
      ((Nat.toDigits 10 d.digits).length + d.exponent - digits.length) = finite false units := by
    rw [← reads, value, ofDecimal_mul_pow, ← value, split, List.length_append,
      List.length_replicate]
    congr 1
    omega
  refine ⟨?_, ?_, read⟩
  · rintro rfl
    rw [digitsValue_nil, ofDecimal_zero] at read
    exact absurd (finite.inj read).2 (Nat.ne_of_lt positive)
  · intro c mem
    refine Nat.isDigit_of_mem_toDigits (b := 10) (n := d.digits) (by decide) (by decide) ?_
    rw [split]
    exact List.mem_append_left _ mem

/-- Digits with a point placed among them, as whole digits and a fraction of the same value. -/
theorem placePoint_plain {digits : List Char} (nonempty : digits ≠ [])
    (numeric : ∀ c ∈ digits, c.isDigit = true) (point : Int) :
    ∃ whole fraction, placePoint [] digits point = plain whole fraction ∧ whole ≠ [] ∧
      (∀ c ∈ whole ++ fraction, c.isDigit = true) ∧
      ∀ negative, ofDecimal negative (digitsValue 0 (whole ++ fraction)) (-fraction.length) =
        ofDecimal negative (digitsValue 0 digits) (point - digits.length) := by
  simp only [placePoint]
  -- The point stands before all digits, behind them, or between two of them.
  split
  · next small =>
    refine ⟨['0'], List.replicate (-point).toNat '0' ++ digits, ?_, by simp, ?_, fun negative => ?_⟩
    · simp [plain, nonempty]
    · simp only [List.mem_append, List.mem_singleton, List.mem_replicate]
      rintro c (rfl | ⟨_, rfl⟩ | mem)
      · rfl
      · rfl
      · exact numeric c mem
    · have value : digitsValue 0 (['0'] ++ (List.replicate (-point).toNat '0' ++ digits)) =
          digitsValue 0 digits := by
        have zero : digitsValue 0 ['0'] = 0 := rfl
        rw [digitsValue_append, digitsValue_append, zero, digitsValue_zeros, Nat.zero_mul]
      rw [value, List.length_append, List.length_replicate]
      congr 1
      omega
  · next positive =>
    split
    · next long =>
      refine ⟨digits ++ List.replicate (point.toNat - digits.length) '0', [], ?_,
        by simp [nonempty], ?_, fun negative => ?_⟩
      · simp [plain]
      · simp only [List.mem_append, List.mem_replicate, List.not_mem_nil, or_false]
        rintro c (mem | ⟨_, rfl⟩)
        · exact numeric c mem
        · rfl
      · rw [List.append_nil, digitsValue_append, digitsValue_zeros, ofDecimal_mul_pow]
        congr 1
        simp
        omega
    · next short =>
      refine ⟨digits.take point.toNat, digits.drop point.toNat, ?_, ?_, ?_, fun negative => ?_⟩
      · have some : digits.drop point.toNat ≠ [] := by simpa using short
        simp [plain, some]
      · simp [nonempty]
        omega
      · rwa [List.take_append_drop]
      · rw [List.take_append_drop, List.length_drop]
        congr 1
        omega

theorem digit_ne {d : Char} (digit : c.isDigit = true) (other : d.isDigit = false) : c ≠ d := by
  rintro rfl
  rw [digit] at other
  cases other

theorem toLower_digit (digit : c.isDigit = true) : c.toLower = c := by
  have range : 48 ≤ c.toNat ∧ c.toNat ≤ 57 := by
    simpa [Char.isDigit, UInt32.le_iff_toNat_le] using digit
  have small : ¬ (65 ≤ c.val ∧ c.val ≤ 90) := by
    simp [UInt32.le_iff_toNat_le]
    omega
  exact dif_neg small

section Reading

variable {whole fraction : List Char}

theorem readDigits?_plain (negative : Bool) (nonempty : whole ≠ [])
    (numeric : ∀ c ∈ whole ++ fraction, c.isDigit = true) :
    readDigits? negative (plain whole fraction) =
      some (ofDecimal negative (digitsValue 0 (whole ++ fraction)) (-fraction.length)) := by
  obtain ⟨wholeNumeric, fractionNumeric⟩ := List.forall_mem_append.1 numeric
  have takeAll : (fraction ++ []).takeWhile Char.isDigit = fraction ++ [] :=
    List.takeWhile_append_of_pos fractionNumeric
  have dropAll : (fraction ++ []).dropWhile Char.isDigit = [] :=
    List.dropWhile_append_of_pos fractionNumeric
  rw [List.append_nil] at takeAll dropAll
  rw [readDigits?, plain, List.takeWhile_append_of_pos wholeNumeric,
    List.dropWhile_append_of_pos wholeNumeric]
  cases fraction with
  | nil => simp [nonempty, readExponent?]
  | cons c fraction =>
    have point : '.'.isDigit = false := rfl
    simp [point, takeAll, dropAll, readExponent?]

/-- Text that starts with a digit is no word. -/
theorem readUnsigned?_digit (negative : Bool) (text : List Char) (digit : c.isDigit = true) :
    readUnsigned? negative (c :: text) = readDigits? negative (c :: text) := by
  have starts : ∀ word : String, (∃ d rest, word.toList = d :: rest ∧ d.isDigit = false) →
      String.ofList ((c :: text).map Char.toLower) ≠ word := by
    rintro word ⟨d, rest, chars, other⟩ rfl
    rw [String.toList_ofList, List.map_cons, toLower_digit digit] at chars
    exact digit_ne digit other (List.cons.inj chars).1
  have inf := starts "inf" ⟨'i', _, rfl, rfl⟩
  have infinity := starts "infinity" ⟨'i', _, rfl, rfl⟩
  have nan := starts "nan" ⟨'n', _, rfl, rfl⟩
  simp only [readUnsigned?, inf, infinity, nan, decide_false, Bool.or_self, Bool.false_eq_true,
    if_false]

theorem ofText?_plain (negative : Bool) (nonempty : whole ≠ [])
    (numeric : ∀ c ∈ whole ++ fraction, c.isDigit = true) :
    ofText? (String.ofList (sign negative ++ plain whole fraction)) =
      some (ofDecimal negative (digitsValue 0 (whole ++ fraction)) (-fraction.length)) := by
  have read := readDigits?_plain negative nonempty numeric
  cases whole with
  | nil => exact absurd rfl nonempty
  | cons c whole =>
    have digit := numeric c (by simp)
    rw [plain, List.cons_append, ← readUnsigned?_digit negative _ digit] at read
    rw [ofText?, String.toList_ofList, plain]
    cases negative with
    | true => exact read
    | false =>
      have minus := digit_ne (d := '-') digit rfl
      have plus := digit_ne (d := '+') digit rfl
      rw [← read]
      simp only [sign, Bool.false_eq_true, if_false, List.nil_append, List.cons_append]
      split
      · next same => exact absurd (List.cons.inj same).1 minus
      · next same => exact absurd (List.cons.inj same).1 plus
      · rfl

end Reading

/-- The notation of a finite number: a sign, digits, and a fraction if there is one. -/
theorem display_plain (negative : Bool) (held : Held units) (bounded : units < 2 ^ 2098) :
    ∃ whole fraction, display (finite negative units) =
        String.ofList (sign negative ++ plain whole fraction) ∧ whole ≠ [] ∧
      (∀ c ∈ whole ++ fraction, c.isDigit = true) ∧
      ofDecimal negative (digitsValue 0 (whole ++ fraction)) (-fraction.length) =
        finite negative units := by
  rw [display]
  split
  · next zero =>
    subst zero
    exact ⟨['0'], [], rfl, by simp, List.forall_mem_singleton.2 rfl, ofDecimal_zero negative _⟩
  · next nonzero =>
    have positive : 0 < units := Nat.pos_of_ne_zero nonzero
    obtain ⟨nonempty, numeric, reads⟩ := significant_reads held positive bounded rfl
    obtain ⟨whole, fraction, placed, some, digits, same⟩ := placePoint_plain nonempty numeric _
    exact ⟨whole, fraction, congrArg (fun body => String.ofList (sign negative ++ body)) placed,
      some, digits, (same negative).trans (ofDecimal_sign negative reads)⟩

/-- A finite number is read back from its notation. -/
theorem ofText?_display (negative : Bool) (held : Held units) (bounded : units < 2 ^ 2098) :
    ofText? (display (finite negative units)) = some (finite negative units) := by
  obtain ⟨whole, fraction, shown, nonempty, numeric, reads⟩ := display_plain negative held bounded
  rw [shown, ofText?_plain negative nonempty numeric, reads]

theorem readDigits?_held {negative sign : Bool} {text : List Char}
    (read : readDigits? negative text = some (finite sign units)) :
    Held units ∧ units < 2 ^ 2098 := by
  simp only [readDigits?] at read
  -- with a point and without one
  split at read <;> split at read
  · cases read
  · obtain ⟨exponent, _, decimal⟩ := Option.map_eq_some_iff.1 read
    exact ofDecimal_held decimal
  · cases read
  · obtain ⟨exponent, _, decimal⟩ := Option.map_eq_some_iff.1 read
    exact ofDecimal_held decimal

theorem readUnsigned?_held {negative sign : Bool} {text : List Char}
    (read : readUnsigned? negative text = some (finite sign units)) :
    Held units ∧ units < 2 ^ 2098 := by
  simp only [readUnsigned?] at read
  split at read
  · cases read
  · split at read
    · cases read
    · exact readDigits?_held read

/-- Numbers that are read have sizes that the format holds. -/
theorem ofText?_held {sign : Bool} {text : String}
    (read : ofText? text = some (finite sign units)) : Held units ∧ units < 2 ^ 2098 := by
  rw [ofText?] at read
  split at read
  · exact readUnsigned?_held read
  · exact readUnsigned?_held read
  · exact readUnsigned?_held read

end TelemetryQuery.Number
