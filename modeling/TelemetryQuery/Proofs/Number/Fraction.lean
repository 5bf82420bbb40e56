import TelemetryQuery.Proofs.Number.Rounding
/- Rounding keeps the order, so a part of a whole is a number between zero and one, and so is what
is left of one without it. -/
namespace TelemetryQuery.Number

theorem div_le_roundDiv (num den : Nat) : num / den ≤ roundDiv num den := by
  simp only [roundDiv]
  split
  · omega
  · split <;> omega

theorem roundDiv_mono {num other : Nat} (den : Nat) (le : num ≤ other) :
    roundDiv num den ≤ roundDiv other den := by
  have quotients : num / den ≤ other / den := Nat.div_le_div_right le
  rcases Nat.eq_or_lt_of_le quotients with same | lt
  · have remainders : num % den ≤ other % den := by
      have first := Nat.div_add_mod num den
      have second := Nat.div_add_mod other den
      rw [same] at first
      omega
    have twice : 2 * (num % den) ≤ 2 * (other % den) := Nat.mul_le_mul_left 2 remainders
    have even : other / den % 2 < 2 := Nat.mod_lt _ (by decide)
    simp only [roundDiv, same]
    grind
  · have up := roundDiv_le num den
    have down := div_le_roundDiv other den
    omega

theorem log2_mono {a b : Nat} (le : a ≤ b) : Nat.log2 a ≤ Nat.log2 b := by
  by_cases zero : a = 0
  · simp [zero]
  · exact (Nat.le_log2 (by omega)).2 (Nat.le_trans (Nat.log2_self_le zero) le)

/-- What is at most a size that the format holds is not rounded past it. -/
theorem roundUnits_le {num den bound : Nat} (positive : 0 < den) (held : Held bound)
    (le : num ≤ bound * den) : roundUnits num den ≤ bound := by
  have quotient : num / den ≤ bound := Nat.div_le_of_le_mul (Nat.mul_comm bound den ▸ le)
  have spare : 2 ^ (Nat.log2 (num / den) + 1 - 53) ∣ bound := by
    refine Nat.dvd_trans (Nat.pow_dvd_pow 2 ?_) held
    have := log2_mono quotient
    omega
  simp only [roundUnits]
  generalize 2 ^ (Nat.log2 (num / den) + 1 - 53) = unit at spare
  obtain ⟨k, rfl⟩ := spare
  by_cases zero : unit = 0
  · simp [zero]
  · have scaled : num ≤ k * (den * unit) := calc
      num ≤ unit * k * den := le
      _ = k * (den * unit) := by ac_rfl
    have rounded := roundDiv_mono (den * unit) scaled
    rw [roundDiv_mul k (Nat.mul_pos positive (Nat.pos_of_ne_zero zero))] at rounded
    rw [Nat.mul_comm]
    exact Nat.mul_le_mul_left unit rounded

theorem held_two_pow (e : Nat) : Held (2 ^ e) := by
  have held := held_mul_two_pow (k := 1) (e := e) (Nat.one_le_two_pow)
  rwa [Nat.one_mul] at held

/-- The power of two at or below a size is not lost by rounding. -/
theorem two_pow_log2_le_roundUnits {units : Nat} (positive : 0 < units) :
    2 ^ Nat.log2 units ≤ roundUnits units 1 := by
  simp only [roundUnits, Nat.div_one, Nat.one_mul]
  have exact : 2 ^ (Nat.log2 units + 1 - 53) ∣ 2 ^ Nat.log2 units := Nat.pow_dvd_pow 2 (by omega)
  have below : 2 ^ Nat.log2 units ≤ units := Nat.log2_self_le (Nat.ne_of_gt positive)
  calc
    2 ^ Nat.log2 units =
        2 ^ Nat.log2 units / 2 ^ (Nat.log2 units + 1 - 53) * 2 ^ (Nat.log2 units + 1 - 53) :=
      (Nat.div_mul_cancel exact).symm
    _ ≤ roundDiv units (2 ^ (Nat.log2 units + 1 - 53)) * 2 ^ (Nat.log2 units + 1 - 53) := by
      refine Nat.mul_le_mul_right _ (Nat.le_trans (Nat.div_le_div_right below) ?_)
      exact div_le_roundDiv _ _

theorem roundUnits_mono {units other : Nat} (le : units ≤ other) :
    roundUnits units 1 ≤ roundUnits other 1 := by
  rcases Nat.eq_or_lt_of_le (log2_mono le) with same | lt
  · simp only [roundUnits, Nat.div_one, same]
    exact Nat.mul_le_mul_right _ (roundDiv_mono _ le)
  · -- A power of two lies between the two sizes, and rounding crosses it in neither direction.
    have positive : 0 < other := by
      refine Nat.pos_of_ne_zero ?_
      rintro rfl
      simp at lt
    have below : units ≤ 2 ^ Nat.log2 other := by
      by_cases zero : units = 0
      · rw [zero]
        exact Nat.zero_le _
      · exact Nat.le_of_lt ((Nat.log2_lt zero).1 lt)
    refine Nat.le_trans (roundUnits_le Nat.one_pos (held_two_pow _) ?_)
      (two_pow_log2_le_roundUnits positive)
    rwa [Nat.mul_one]

theorem held_unitsPerOne : Held unitsPerOne := by
  unfold unitsPerOne
  exact held_two_pow _

/-- Positive numbers are in the order of their sizes. -/
theorem finite_le {m n : Nat} : (finite false m).le (finite false n) = true ↔ m ≤ n := by
  simp only [le, lt, same, signed, Bool.false_eq_true, if_false, Bool.or_eq_true, beq_iff_eq,
    decide_eq_true_iff]
  omega

/-- A count that the format can hold is rounded to a finite number. -/
theorem ofNat_eq {n : Nat} (small : n < 2 ^ 1023) :
    ofNat n = finite false (roundUnits (n * unitsPerOne) 1) := by
  have bounded : roundUnits (n * unitsPerOne) 1 ≤ 2 ^ 2097 := by
    refine roundUnits_le Nat.one_pos (held_two_pow 2097) ?_
    have power : 2 ^ 2097 * 1 = 2 ^ 1023 * unitsPerOne := by
      rw [unitsPerOne, Nat.mul_one, ← Nat.pow_add]
    rw [power]
    exact Nat.mul_le_mul_right _ (Nat.le_of_lt small)
  have finite : roundUnits (n * unitsPerOne) 1 < 2 ^ 2098 :=
    Nat.lt_of_le_of_lt bounded (Nat.pow_lt_pow_right (by decide) (by decide))
  rw [ofNat, ofQuotient, if_pos finite]

theorem ofQuotient_le_one {num den : Nat} (positive : 0 < den) (le : num ≤ unitsPerOne * den) :
    ∃ units ≤ unitsPerOne, ofQuotient false num den = finite false units := by
  have rounded : roundUnits num den ≤ unitsPerOne := roundUnits_le positive held_unitsPerOne le
  have small : unitsPerOne < 2 ^ 2098 := Nat.pow_lt_pow_right (by decide) (by decide)
  exact ⟨_, rounded, by rw [ofQuotient, if_pos (Nat.lt_of_le_of_lt rounded small)]⟩

/-- What is left of one without the part that a count is of another lies between zero and one. -/
theorem one_sub_part {part whole : Nat} (positive : 0 < whole) (le : part ≤ whole)
    (small : whole < 2 ^ 1023) :
    ∃ units ≤ unitsPerOne, one.sub ((ofNat part).div (ofNat whole)) = finite false units := by
  rw [ofNat_eq (Nat.lt_of_le_of_lt le small), ofNat_eq small]
  have ordered : roundUnits (part * unitsPerOne) 1 ≤ roundUnits (whole * unitsPerOne) 1 :=
    roundUnits_mono (Nat.mul_le_mul_right _ le)
  have nonzero : 0 < roundUnits (whole * unitsPerOne) 1 := by
    have size : 0 < whole * unitsPerOne := Nat.mul_pos positive (Nat.two_pow_pos _)
    exact Nat.lt_of_lt_of_le (Nat.two_pow_pos _) (two_pow_log2_le_roundUnits size)
  generalize roundUnits (part * unitsPerOne) 1 = m at ordered
  generalize roundUnits (whole * unitsPerOne) 1 = n at ordered nonzero
  obtain ⟨share, shareLe, quotient⟩ : ∃ units ≤ unitsPerOne,
      (finite false m).div (finite false n) = finite false units := by
    rw [div, if_neg (Nat.ne_of_gt nonzero)]
    refine ofQuotient_le_one nonzero ?_
    rw [Nat.mul_comm]
    exact Nat.mul_le_mul_left _ ordered
  have total : signed false unitsPerOne + signed true share = (unitsPerOne - share : Nat) := by
    rw [signed, signed, if_neg (by decide), if_pos rfl]
    omega
  rw [quotient, sub, neg, one, Bool.not_false, add, total]
  split
  · exact ⟨0, Nat.zero_le _, rfl⟩
  · have positive : ¬((unitsPerOne - share : Nat) : Int) < 0 := by omega
    rw [decide_eq_false positive, Int.natAbs_natCast]
    refine ofQuotient_le_one Nat.one_pos ?_
    rw [Nat.mul_one]
    exact Nat.sub_le _ _

end TelemetryQuery.Number
