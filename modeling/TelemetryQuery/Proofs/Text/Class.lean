import TelemetryQuery.Proofs.Filter.Lexer
import TelemetryQuery.Text.Blank
import TelemetryQuery.Text.Word
/- The classes of characters, compared by their tables. -/
namespace TelemetryQuery.Text

open Filter (inRanges_of_lt isAlphabetic_of_lt)

/-- Tables without a common range have no common character. -/
theorem inRanges_apart {first second : List (Nat × Nat)}
    (apart : (first.all fun a => second.all fun b => a.2 < b.1 || b.2 < a.1) = true) {c : Char}
    (mem : inRanges first c = true) : inRanges second c = false := by
  rw [inRanges, List.any_eq_true] at mem
  obtain ⟨a, aMem, inside⟩ := mem
  have others := List.all_eq_true.1 apart a aMem
  rw [inRanges, List.any_eq_false]
  intro b bMem
  have separate := List.all_eq_true.1 others b bMem
  simp only [Bool.and_eq_true, Bool.or_eq_true, decide_eq_true_eq] at inside separate ⊢
  omega

theorem isAlpha_eq (c : Char) : c.isAlpha = inRanges [(65, 90), (97, 122)] c := by
  simp only [inRanges, List.any_cons, List.any_nil, Bool.or_false]
  change (decide (65 ≤ c.val ∧ c.val ≤ 90) || decide (97 ≤ c.val) && decide (c.val ≤ 122)) = _
  simp [UInt32.le_iff_toNat_le]

theorem isDigit_eq (c : Char) : c.isDigit = inRanges [(48, 57)] c := by
  simp [inRanges, Char.isDigit, UInt32.le_iff_toNat_le]

theorem underscore_eq (c : Char) : (c == '_') = inRanges [(95, 95)] c := by
  rw [Bool.eq_iff_iff, beq_iff_eq]
  simp only [inRanges, List.any_cons, List.any_nil, Bool.or_false, Bool.and_eq_true,
    decide_eq_true_eq]
  constructor
  · rintro rfl
    decide
  · intro bounds
    exact Char.toNat_inj.1 (Nat.le_antisymm bounds.2 bounds.1)

theorem isAlphabetic_blank {c : Char} (blank : isBlank c = true) : isAlphabetic c = false := by
  rw [isAlphabetic, isAlpha_eq, inRanges_apart (by decide) blank,
    inRanges_apart (by decide +kernel) blank]
  rfl

theorem isAlphanumeric_blank {c : Char} (blank : isBlank c = true) : isAlphanumeric c = false := by
  rw [isAlphanumeric, isAlphabetic_blank blank, isNumeric, isDigit_eq,
    inRanges_apart (by decide) blank, inRanges_apart (by decide +kernel) blank]
  rfl

theorem isWord_blank {c : Char} (blank : isBlank c = true) : isWord c = false := by
  rw [isWord, isAlphabetic_blank blank, isDecimalDigit, isDigit_eq,
    inRanges_apart (by decide) blank, inRanges_apart (by decide +kernel) blank,
    inRanges_apart (by decide) blank, inRanges_apart (by decide +kernel) blank,
    inRanges_apart (by decide) blank]
  rfl

theorem isAlphanumeric_ascii {c : Char} (ascii : c.toNat < 128) :
    isAlphanumeric c = (c.isAlpha || c.isDigit) := by
  have beyond : ∀ range ∈ numericRanges, 128 ≤ range.1 := by decide +kernel
  rw [isAlphanumeric, isNumeric, isAlphabetic_of_lt (by omega), inRanges_of_lt beyond ascii,
    Bool.or_false]

theorem isWord_ascii {c : Char} (ascii : c.toNat < 128) :
    isWord c = (c.isAlpha || c.isDigit || c == '_') := by
  have digits : ∀ range ∈ decimalDigitRanges, 128 ≤ range.1 := by decide +kernel
  have marks : ∀ range ∈ markRanges, 128 ≤ range.1 := by decide +kernel
  have joins : ∀ range ∈ joinControlRanges, 128 ≤ range.1 := by decide
  have connectors : ∀ range ∈ connectorRanges.tail, 128 ≤ range.1 := by decide
  have line : inRanges connectorRanges c = (c == '_') := by
    have split : connectorRanges = [(95, 95)] ++ connectorRanges.tail := rfl
    rw [split, inRanges, List.any_append]
    change (inRanges [(95, 95)] c || inRanges connectorRanges.tail c) = _
    rw [inRanges_of_lt connectors ascii, Bool.or_false, underscore_eq]
  rw [isWord, isDecimalDigit, isAlphabetic_of_lt (by omega), inRanges_of_lt digits ascii,
    inRanges_of_lt marks ascii, inRanges_of_lt joins ascii, line]
  simp only [Bool.or_false]

end TelemetryQuery.Text
