import Mathlib.Algebra.Order.Field.Basic
import Mathlib.Algebra.Order.Field.Rat
import Mathlib.Data.Int.Cast.Lemmas
import TelemetryQuery.Number.Basic
/- The comparisons of finite numbers are those of the rational numbers that they stand for. -/
namespace TelemetryQuery.Number

/-- The rational number that a finite number is; there is none that the others are. -/
def value : Number → ℚ
  | finite negative units => (signed negative units : ℚ) / (unitsPerOne : ℚ)
  | _ => 0

theorem unitsPerOne_pos : (0 : ℚ) < unitsPerOne := by
  have positive : 0 < unitsPerOne := by decide +kernel
  exact Nat.cast_pos.2 positive

variable {a b : Number}

theorem eq_finite (finiteA : a.isFinite = true) : ∃ negative units, a = finite negative units := by
  cases a with
  | finite negative units => exact ⟨negative, units, rfl⟩
  | _ => cases finiteA

theorem lt_iff (finiteA : a.isFinite = true) (finiteB : b.isFinite = true) :
    a.lt b = true ↔ a.value < b.value := by
  obtain ⟨negative, units, rfl⟩ := eq_finite finiteA
  obtain ⟨otherNegative, otherUnits, rfl⟩ := eq_finite finiteB
  rw [lt, value, value, div_lt_div_iff_of_pos_right unitsPerOne_pos, Int.cast_lt,
    decide_eq_true_iff]

theorem same_iff (finiteA : a.isFinite = true) (finiteB : b.isFinite = true) :
    a.same b = true ↔ a.value = b.value := by
  obtain ⟨negative, units, rfl⟩ := eq_finite finiteA
  obtain ⟨otherNegative, otherUnits, rfl⟩ := eq_finite finiteB
  rw [same, value, value, div_left_inj' unitsPerOne_pos.ne', Int.cast_inj, beq_iff_eq]

theorem le_iff (finiteA : a.isFinite = true) (finiteB : b.isFinite = true) :
    a.le b = true ↔ a.value ≤ b.value := by
  rw [le, Bool.or_eq_true, lt_iff finiteA finiteB, same_iff finiteA finiteB, le_iff_lt_or_eq]

end TelemetryQuery.Number
