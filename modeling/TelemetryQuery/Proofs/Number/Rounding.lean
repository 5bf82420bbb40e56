import TelemetryQuery.Number.Shortest
/- Rounding keeps the sizes that the format holds, and gives only such sizes. -/
namespace TelemetryQuery.Number

variable {den c units m : Nat}

/-- A size that 53 significant bits can hold: it is a multiple of the unit that they leave. -/
def Held (units : Nat) : Prop :=
  2 ^ (Nat.log2 units + 1 - 53) ∣ units

theorem roundDiv_mul_right (num den : Nat) (positive : 0 < c) :
    roundDiv (num * c) (den * c) = roundDiv num den := by
  have twice : 2 * (num % den * c) = 2 * (num % den) * c := (Nat.mul_assoc _ _ _).symm
  simp only [roundDiv, Nat.mul_div_mul_right num den positive, Nat.mul_mod_mul_right, twice,
    Nat.mul_lt_mul_right positive]

theorem roundDiv_mul (k : Nat) (positive : 0 < den) : roundDiv (k * den) den = k := by
  simp [roundDiv, Nat.mul_div_cancel k positive, positive]

theorem roundDiv_le (num den : Nat) : roundDiv num den ≤ num / den + 1 := by
  have even : num / den % 2 < 2 := Nat.mod_lt _ (by decide)
  simp only [roundDiv]
  split
  · omega
  · split <;> omega

/-- Both parts of a quotient may be scaled. -/
theorem roundUnits_mul_right (num den : Nat) (positive : 0 < c) :
    roundUnits (num * c) (den * c) = roundUnits num den := by
  simp only [roundUnits, Nat.mul_div_mul_right num den positive, Nat.mul_right_comm den c,
    roundDiv_mul_right num _ positive]

/-- A size that the format holds is not changed. -/
theorem roundUnits_held (held : Held units) (positive : 0 < den) :
    roundUnits (units * den) den = units := by
  obtain ⟨k, whole⟩ := held
  have scaled : units * den = k * (den * 2 ^ (Nat.log2 units + 1 - 53)) := calc
    units * den = 2 ^ (Nat.log2 units + 1 - 53) * k * den := congrArg (· * den) whole
    _ = k * (den * 2 ^ (Nat.log2 units + 1 - 53)) := by ac_rfl
  simp only [roundUnits, Nat.mul_div_cancel units positive]
  rw [scaled, roundDiv_mul k (Nat.mul_pos positive (Nat.two_pow_pos _)), Nat.mul_comm]
  exact whole.symm

/-- A multiple of a power of two with at most 53 bits before it is held. -/
theorem held_mul_two_pow {k e : Nat} (small : k ≤ 2 ^ 53) : Held (k * 2 ^ e) := by
  by_cases zero : k = 0
  · simp [zero, Held]
  by_cases full : k = 2 ^ 53
  · rw [Held, full, ← Nat.pow_add, Nat.log2_two_pow]
    exact Nat.pow_dvd_pow 2 (by omega)
  · have below : k * 2 ^ e < 2 ^ (53 + e) := by
      rw [Nat.pow_add]
      exact (Nat.mul_lt_mul_right (Nat.two_pow_pos e)).2 (by omega)
    have nonzero : k * 2 ^ e ≠ 0 := Nat.mul_ne_zero zero (Nat.ne_of_gt (Nat.two_pow_pos e))
    have bits : Nat.log2 (k * 2 ^ e) < 53 + e := (Nat.log2_lt nonzero).2 below
    exact Nat.dvd_trans (Nat.pow_dvd_pow 2 (by omega)) (Nat.dvd_mul_left _ _)

/-- Rounding gives sizes that the format holds. -/
theorem held_roundUnits (num den : Nat) : Held (roundUnits num den) := by
  simp only [roundUnits]
  generalize exponent : Nat.log2 (num / den) + 1 - 53 = e
  refine held_mul_two_pow (Nat.le_trans (roundDiv_le _ _) ?_)
  have bound : num / den < 2 ^ (53 + e) := by
    refine Nat.lt_of_lt_of_le Nat.lt_log2_self (Nat.pow_le_pow_right (by decide) ?_)
    omega
  rw [Nat.pow_add] at bound
  rw [← Nat.div_div_eq_div_mul]
  exact (Nat.div_lt_iff_lt_mul (Nat.two_pow_pos e)).2 bound

theorem ofQuotient_mul_right (negative : Bool) (num den : Nat) (positive : 0 < c) :
    ofQuotient negative (num * c) (den * c) = ofQuotient negative num den := by
  rw [ofQuotient, ofQuotient, roundUnits_mul_right num den positive]

theorem length_toDigits_mul_pow (positive : 0 < m) (k : Nat) :
    (Nat.toDigits 10 (m * 10 ^ k)).length = (Nat.toDigits 10 m).length + k := by
  induction k with
  | zero => simp
  | succ k ih =>
    have scaled : 0 < m * 10 ^ k := Nat.mul_pos positive (Nat.pow_pos (by decide))
    have next : m * 10 ^ (k + 1) = 10 * (m * 10 ^ k) + 0 := by
      rw [Nat.pow_succ, Nat.add_zero]
      ac_rfl
    rw [next, ← Nat.toDigits_append_toDigits (by decide) scaled (by decide), List.length_append, ih]
    rfl

/-- Zeros at the end of the digits of a decimal may go into its exponent. -/
theorem ofDecimal_mul_pow (negative : Bool) (m k : Nat) (e : Int) :
    ofDecimal negative (m * 10 ^ k) e = ofDecimal negative m (e + k) := by
  by_cases zero : m = 0
  · simp [ofDecimal, zero]
  have scaled : m * 10 ^ k ≠ 0 := Nat.mul_ne_zero zero (Nat.ne_of_gt (Nat.pow_pos (by decide)))
  have length := length_toDigits_mul_pow (Nat.pos_of_ne_zero zero) k
  have top : ((Nat.toDigits 10 (m * 10 ^ k)).length + e : Int) =
      (Nat.toDigits 10 m).length + (e + k) := by omega
  simp only [ofDecimal, if_neg zero, if_neg scaled, top]
  -- The exponent may change its sign, and with it the side of the quotient that is scaled.
  generalize unitsPerOne = unit
  split
  · rfl
  split
  · rfl
  split
  · next whole =>
    have still : 0 ≤ e + k := by omega
    have power : (e + k).toNat = k + e.toNat := by omega
    rw [if_pos still, power, Nat.pow_add, ← Nat.mul_assoc]
  · next fraction =>
    split
    · next still =>
      have power : (e + k).toNat + (-e).toNat = k := by omega
      have num : m * 10 ^ k * unit = m * 10 ^ (e + k).toNat * unit * 10 ^ (-e).toNat := calc
        m * 10 ^ k * unit = m * (10 ^ (e + k).toNat * 10 ^ (-e).toNat) * unit := by
          rw [← Nat.pow_add, power]
        _ = m * 10 ^ (e + k).toNat * unit * 10 ^ (-e).toNat := by ac_rfl
      rw [num]
      have scaledDown := ofQuotient_mul_right negative (m * 10 ^ (e + k).toNat * unit) 1
        (Nat.pow_pos (n := (-e).toNat) (by decide : 0 < 10))
      rwa [Nat.one_mul] at scaledDown
    · next less =>
      have power : (-e).toNat = (-(e + k)).toNat + k := by omega
      rw [power, Nat.pow_add, Nat.mul_right_comm m (10 ^ k) unit]
      exact ofQuotient_mul_right negative _ _ (Nat.pow_pos (by decide))

theorem five_mul_two_pow (n k : Nat) : n * 5 ^ k * 2 ^ k = n * 10 ^ k := by
  rw [Nat.mul_assoc, ← Nat.mul_pow]

/-- The size of a positive number has its place among the decimals that are read with care. -/
theorem ofDecimal_exact (negative : Bool) (held : Held units) (positive : 0 < units)
    (bounded : units < 2 ^ 2098) :
    ofDecimal negative (units * 5 ^ 1074) (-1074) = finite negative units := by
  -- The number of digits is bounded from both sides, so neither shortcut for decimals far out of
  -- range applies.
  have small : units * 5 ^ 1074 < 10 ^ 1384 := calc
    units * 5 ^ 1074 < 2 ^ 2098 * 5 ^ 1074 := (Nat.mul_lt_mul_right (by decide +kernel)).2 bounded
    _ ≤ 10 ^ 1384 := by decide +kernel
  have large : 10 ^ 743 ≤ units * 5 ^ 1074 := calc
    10 ^ 743 ≤ 1 * 5 ^ 1074 := by decide +kernel
    _ ≤ units * 5 ^ 1074 := Nat.mul_le_mul_right _ positive
  have nonzero : units * 5 ^ 1074 ≠ 0 :=
    Nat.mul_ne_zero (Nat.ne_of_gt positive) (by decide +kernel)
  have upper : (Nat.toDigits 10 (units * 5 ^ 1074)).length ≤ 1384 :=
    (Nat.length_toDigits_le_iff (by decide) (by decide)).2 small
  have lower : 743 < (Nat.toDigits 10 (units * 5 ^ 1074)).length := by
    rw [← Nat.not_le, Nat.length_toDigits_le_iff (by decide) (by decide), Nat.not_lt]
    exact large
  have num : units * 5 ^ 1074 * unitsPerOne = units * 10 ^ 1074 := by
    rw [unitsPerOne, five_mul_two_pow units 1074]
  have power : (-(-1074) : Int).toNat = 1074 := rfl
  simp only [ofDecimal]
  rw [if_neg nonzero, if_neg (by omega), if_neg (by omega), if_neg (by decide), num, power,
    ofQuotient, roundUnits_held held (Nat.pow_pos (n := 1074) (by decide)), if_pos bounded]

theorem choose_readsAs {first second last : Decimal} (reads : last.readsAs units = true) :
    Decimal.readsAs (if first.readsAs units then first else if second.readsAs units then second
      else last) units = true := by
  split
  · next firstReads => exact firstReads
  · split
    · next secondReads => exact secondReads
    · exact reads

/-- The decimal that is found reads as the size that was sought, if the last resort does. -/
theorem search_readsAs {tie : Tie} {exact : Nat}
    (fallback : Decimal.readsAs ⟨exact, -1074⟩ units = true) (dropped : Nat) :
    (search tie units exact dropped).readsAs units = true := by
  -- Shorter decimals are only taken once they were seen to read as the size.
  induction dropped with
  | zero => exact fallback
  | succ dropped ih =>
    simp only [search]
    split
    · exact choose_readsAs ih
    · exact choose_readsAs ih

theorem shortest_readsAs (tie : Tie) (held : Held units) (positive : 0 < units)
    (bounded : units < 2 ^ 2098) : (shortest tie units).readsAs units = true := by
  refine search_readsAs ?_ _
  rw [Decimal.readsAs, ofDecimal_exact false held positive bounded]
  exact decide_eq_true rfl

@[simp]
theorem ofDecimal_zero (negative : Bool) (e : Int) :
    ofDecimal negative 0 e = finite negative 0 := by
  simp [ofDecimal]

/-- A decimal is read with either sign as zero, as infinite or as one rounded quotient. -/
theorem ofDecimal_cases (m : Nat) (e : Int) :
    (∀ negative, ofDecimal negative m e = finite negative 0) ∨
    (∀ negative, ofDecimal negative m e = infinite negative) ∨
    ∃ num den, ∀ negative, ofDecimal negative m e = ofQuotient negative num den := by
  simp only [ofDecimal]
  split
  · exact .inl fun _ => rfl
  split
  · exact .inr (.inl fun _ => rfl)
  split
  · exact .inl fun _ => rfl
  split
  · exact .inr (.inr ⟨_, _, fun _ => rfl⟩)
  · exact .inr (.inr ⟨_, _, fun _ => rfl⟩)

theorem ofQuotient_eq_finite {negative sign : Bool} {num : Nat}
    (read : ofQuotient negative num den = finite sign units) :
    roundUnits num den = units ∧ units < 2 ^ 2098 := by
  rw [ofQuotient] at read
  split at read
  · next small =>
    obtain ⟨rfl, rfl⟩ := finite.inj read
    exact ⟨rfl, small⟩
  · cases read

theorem ofDecimal_sign {e : Int} (negative : Bool)
    (read : ofDecimal false m e = finite false units) :
    ofDecimal negative m e = finite negative units := by
  rcases ofDecimal_cases m e with zero | unbounded | ⟨num, den, quotient⟩
  · rw [zero] at read ⊢
    rw [(finite.inj read).2]
  · rw [unbounded] at read
    cases read
  · rw [quotient] at read ⊢
    obtain ⟨rfl, small⟩ := ofQuotient_eq_finite read
    rw [ofQuotient, if_pos small]

/-- Numbers that are read from decimals have sizes that the format holds. -/
theorem ofDecimal_held {negative sign : Bool} {e : Int}
    (read : ofDecimal negative m e = finite sign units) : Held units ∧ units < 2 ^ 2098 := by
  rcases ofDecimal_cases m e with zero | unbounded | ⟨num, den, quotient⟩
  · rw [zero] at read
    obtain ⟨_, rfl⟩ := finite.inj read
    exact ⟨Nat.dvd_zero _, Nat.two_pow_pos 2098⟩
  · rw [unbounded] at read
    cases read
  · rw [quotient] at read
    obtain ⟨rfl, small⟩ := ofQuotient_eq_finite read
    exact ⟨held_roundUnits num den, small⟩

end TelemetryQuery.Number
