import Mathlib.Order.Bounds.Basic
import TelemetryQuery.Field.Similarity
import TelemetryQuery.Proofs.Number.Fraction
/- The edit distance of two texts is the least number of edits that make one of the other. It is
computed row by row, each row being the distances of a start of one text to all starts of the
other. -/
namespace TelemetryQuery.Field

/-- One edit of a text: a character is inserted, deleted or put in the place of another. -/
inductive Edit : List Char → List Char → Prop
  | insert (before after : List Char) (c : Char) : Edit (before ++ after) (before ++ c :: after)
  | delete (before after : List Char) (c : Char) : Edit (before ++ c :: after) (before ++ after)
  | substitute (before after : List Char) (c d : Char) :
      Edit (before ++ c :: after) (before ++ d :: after)

/-- So many edits, one after the other. -/
inductive Edits : Nat → List Char → List Char → Prop
  | none {a : List Char} : Edits 0 a a
  | step {n : Nat} {a b c : List Char} : Edit a b → Edits n b c → Edits (n + 1) a c

/-- The least number of edits by recursion on both texts: the first characters are matched or
substituted, or one of them is deleted or inserted. -/
def leastEdits : List Char → List Char → Nat
  | [], b => b.length
  | _ :: a, [] => a.length + 1
  | c :: a, d :: b =>
    min (min (leastEdits a b + if c = d then 0 else 1) (leastEdits a (d :: b) + 1))
      (leastEdits (c :: a) b + 1)
termination_by a b => a.length + b.length

variable {a b : List Char}

namespace Edit

theorem symm (edit : Edit a b) : Edit b a := by
  cases edit with
  | insert before after c => exact .delete before after c
  | delete before after c => exact .insert before after c
  | substitute before after c d => exact .substitute before after d c

theorem cons (c : Char) (edit : Edit a b) : Edit (c :: a) (c :: b) := by
  cases edit with
  | insert before after d => exact .insert (c :: before) after d
  | delete before after d => exact .delete (c :: before) after d
  | substitute before after d e => exact .substitute (c :: before) after d e

theorem reverse (edit : Edit a b) : Edit a.reverse b.reverse := by
  cases edit with
  | insert before after c => simpa using Edit.insert after.reverse before.reverse c
  | delete before after c => simpa using Edit.delete after.reverse before.reverse c
  | substitute before after c d => simpa using Edit.substitute after.reverse before.reverse c d

end Edit

namespace Edits

variable {n : Nat}

theorem snoc {c : List Char} (edits : Edits n a b) (edit : Edit b c) : Edits (n + 1) a c := by
  induction edits with
  | none => exact .step edit .none
  | step first _ ih => exact .step first (ih edit)

theorem symm (edits : Edits n a b) : Edits n b a := by
  induction edits with
  | none => exact .none
  | step edit _ ih => exact ih.snoc edit.symm

theorem cons (c : Char) (edits : Edits n a b) : Edits n (c :: a) (c :: b) := by
  induction edits with
  | none => exact .none
  | step edit _ ih => exact .step (edit.cons c) ih

theorem reverse (edits : Edits n a b) : Edits n a.reverse b.reverse := by
  induction edits with
  | none => exact .none
  | step edit _ ih => exact .step edit.reverse ih

theorem min {m : Nat} (edits : Edits m a b) (others : Edits n a b) : Edits (min m n) a b := by
  rcases Nat.le_total m n with le | le
  · rwa [Nat.min_eq_left le]
  · rwa [Nat.min_eq_right le]

/-- A text is made of nothing by as many insertions as it has characters. -/
theorem of_nil (b : List Char) : Edits b.length [] b := by
  induction b with
  | nil => exact .none
  | cons d b ih => exact .step (.insert [] [] d) (ih.cons d)

end Edits

theorem leastEdits_nil (a : List Char) : leastEdits a [] = a.length := by
  cases a <;> simp [leastEdits]

/-- The recursion counts edits that lead from one text to the other. -/
theorem edits_leastEdits (a b : List Char) : Edits (leastEdits a b) a b := by
  fun_induction leastEdits a b with
  | case1 b => exact .of_nil b
  | case2 c a => exact (Edits.of_nil (c :: a)).symm
  | case3 c a d b matched deleted inserted =>
    have substituted : Edits (leastEdits a b + if c = d then 0 else 1) (c :: a) (d :: b) := by
      split
      · next same => exact same ▸ matched.cons c
      · exact .step (.substitute [] a c d) (matched.cons d)
    exact (substituted.min (.step (.delete [] a c) deleted)).min (inserted.snoc (.insert [] b d))

theorem leastEdits_cons_right_le (a b : List Char) (d : Char) :
    leastEdits a (d :: b) ≤ leastEdits a b + 1 := by
  cases a with
  | nil => simp [leastEdits]
  | cons c a =>
    rw [leastEdits]
    exact Nat.min_le_right _ _

theorem leastEdits_cons_left_le (a b : List Char) (c : Char) :
    leastEdits (c :: a) b ≤ leastEdits a b + 1 := by
  cases b with
  | nil => simp [leastEdits_nil]
  | cons d b =>
    rw [leastEdits]
    omega

theorem leastEdits_le_cons_left (a b : List Char) (c : Char) :
    leastEdits a b ≤ leastEdits (c :: a) b + 1 := by
  induction b with
  | nil =>
    simp only [leastEdits_nil, List.length_cons]
    omega
  | cons d b ih =>
    have longer := leastEdits_cons_right_le a b d
    rw [leastEdits]
    omega

theorem leastEdits_substitute_le (a b : List Char) (c d : Char) :
    leastEdits (c :: a) b ≤ leastEdits (d :: a) b + 1 := by
  induction b with
  | nil => simp [leastEdits_nil]
  | cons e b ih =>
    rw [leastEdits, leastEdits]
    split <;> split <;> omega

/-- Texts that are near to each other stay so behind the same characters. -/
theorem leastEdits_append_le {m : List Char} (near : ∀ b, leastEdits a b ≤ leastEdits m b + 1)
    (before b : List Char) : leastEdits (before ++ a) b ≤ leastEdits (before ++ m) b + 1 := by
  induction before generalizing b with
  | nil => exact near b
  | cons c before ih =>
    rw [List.cons_append, List.cons_append]
    induction b with
    | nil => simpa [leastEdits_nil] using ih []
    | cons d b shorter =>
      have same := ih b
      have longer := ih (d :: b)
      rw [leastEdits, leastEdits]
      omega

/-- One edit changes the distance to another text by one at most. -/
theorem leastEdits_edit_le {m : List Char} (edit : Edit a m) (b : List Char) :
    leastEdits a b ≤ leastEdits m b + 1 := by
  cases edit with
  | insert before after c =>
    exact leastEdits_append_le (fun b => leastEdits_le_cons_left after b c) before b
  | delete before after c =>
    exact leastEdits_append_le (fun b => leastEdits_cons_left_le after b c) before b
  | substitute before after c d =>
    exact leastEdits_append_le (fun b => leastEdits_substitute_le after b c d) before b

theorem leastEdits_self (a : List Char) : leastEdits a a = 0 := by
  induction a with
  | nil => simp [leastEdits]
  | cons c a ih => simp [leastEdits, ih]

theorem leastEdits_le {n : Nat} (edits : Edits n a b) : leastEdits a b ≤ n := by
  induction edits with
  | none => exact Nat.le_of_eq (leastEdits_self _)
  | step edit _ ih => exact Nat.le_trans (leastEdits_edit_le edit _) (Nat.succ_le_succ ih)

theorem leastEdits_le_max (a b : List Char) : leastEdits a b ≤ max a.length b.length := by
  fun_induction leastEdits a b with
  | case1 b => simp
  | case2 c a => simp
  | case3 c a d b matched deleted inserted =>
    simp only [List.length_cons] at *
    split <;> omega

/-- No fewer edits than the recursion counts lead from one text to the other. -/
theorem isLeast_leastEdits (a b : List Char) : IsLeast {n | Edits n a b} (leastEdits a b) :=
  ⟨edits_leastEdits a b, fun _ edits => leastEdits_le edits⟩

theorem leastEdits_comm (a b : List Char) : leastEdits a b = leastEdits b a := by
  refine Nat.le_antisymm ?_ ?_
  · exact leastEdits_le (edits_leastEdits b a).symm
  · exact leastEdits_le (edits_leastEdits a b).symm

theorem leastEdits_reverse (a b : List Char) :
    leastEdits a.reverse b.reverse = leastEdits a b := by
  refine Nat.le_antisymm ?_ ?_
  · exact leastEdits_le (edits_leastEdits a b).reverse
  · have edits := (edits_leastEdits a.reverse b.reverse).reverse
    rw [List.reverse_reverse, List.reverse_reverse] at edits
    exact leastEdits_le edits

theorem leastEdits_eq_zero : leastEdits a b = 0 ↔ a = b := by
  constructor
  · intro zero
    have edits := edits_leastEdits a b
    rw [zero] at edits
    cases edits
    rfl
  · rintro rfl
    exact leastEdits_self a

/-- A row: the distances of a text to the starts of another, from the given one on. Both are held
from their ends to their fronts, so that the next characters stand first. -/
def row (a start : List Char) : List Char → List Nat
  | [] => [leastEdits a start]
  | d :: b => leastEdits a start :: row a (d :: start) b

theorem row_eq_cons (a start b : List Char) :
    ∃ rest, row a start b = leastEdits a start :: rest := by
  cases b with
  | nil => exact ⟨_, rfl⟩
  | cons d b => exact ⟨_, rfl⟩

/-- A row is made of the one before it and its own first distance. -/
theorem cons_nextDistances (c : Char) (a start b : List Char) :
    leastEdits (c :: a) start ::
      nextDistances c (leastEdits (c :: a) start) b (row a start b) = row (c :: a) start b := by
  induction b generalizing start with
  | nil => rfl
  | cons d b ih =>
    obtain ⟨rest, next⟩ := row_eq_cons a (d :: start) b
    have later := ih (d :: start)
    rw [next] at later
    rw [row, next, nextDistances, ← leastEdits, later, row]

/-- Going on with a text leads from a row to the row of the longer text. -/
theorem distances_row (a before b : List Char) :
    distances b a (row before [] b) = row (a.reverse ++ before) [] b := by
  induction a generalizing before with
  | nil => rfl
  | cons c a ih =>
    have first : (row before [] b).headD 0 + 1 = leastEdits (c :: before) [] := by
      obtain ⟨rest, head⟩ := row_eq_cons before [] b
      rw [head, List.headD_cons, leastEdits_nil, leastEdits_nil, List.length_cons]
    rw [distances, first, cons_nextDistances, ih, List.reverse_cons, List.append_assoc,
      List.singleton_append]

/-- The first row counts the characters of the other text. -/
theorem row_nil (start b : List Char) :
    row [] start b = List.range' start.length (b.length + 1) := by
  induction b generalizing start with
  | nil => simp [row, leastEdits]
  | cons d b ih => simp [row, leastEdits, ih, List.range'_succ]

theorem getLastD_row (a start b : List Char) :
    (row a start b).getLastD 0 = leastEdits a (b.reverse ++ start) := by
  induction b generalizing start with
  | nil => rfl
  | cons d b ih =>
    obtain ⟨rest, next⟩ := row_eq_cons a (d :: start) b
    have later := ih (d :: start)
    rw [next] at later
    rw [row, next, List.reverse_cons, List.append_assoc, List.singleton_append, ← later]
    simp

/-- The last distance of the last row is that of the whole texts. -/
theorem editDistance_eq (a b : List Char) : editDistance a b = leastEdits a b := by
  have first : List.range (b.length + 1) = row [] [] b := by
    rw [row_nil, List.range_eq_range', List.length_nil]
  rw [editDistance, first, distances_row, getLastD_row, List.append_nil, List.append_nil,
    leastEdits_reverse]

/-- The distance is a part of the longer length, so the similarity lies between zero and one. -/
theorem similarity_eq_finite {a b : String}
    (short : max a.toList.length b.toList.length < 2 ^ 1023) :
    ∃ units ≤ Number.unitsPerOne, similarity a b = .finite false units := by
  rw [similarity]
  split
  · exact ⟨_, Nat.le_refl _, rfl⟩
  · next some =>
    have bound : editDistance a.toList b.toList ≤ max a.toList.length b.toList.length := by
      rw [editDistance_eq]
      exact leastEdits_le_max _ _
    exact Number.one_sub_part (Nat.pos_of_ne_zero some) bound short

/-- The distance that is computed from two rows is the edit distance: it satisfies the recursion on
both texts, and it is the least number of edits that lead from one text to the other. It is
symmetric, zero for equal texts only, and at most the length of the longer text. So the similarity
is a number between zero and one, as long as the lengths are numbers of the format at all. -/
theorem editDistance_least (a b : String) :
    editDistance a.toList b.toList = leastEdits a.toList b.toList ∧
      IsLeast {n | Edits n a.toList b.toList} (editDistance a.toList b.toList) ∧
      editDistance a.toList b.toList = editDistance b.toList a.toList ∧
      (editDistance a.toList b.toList = 0 ↔ a = b) ∧
      editDistance a.toList b.toList ≤ max a.toList.length b.toList.length ∧
      (max a.toList.length b.toList.length < 2 ^ 1023 →
        Number.zero.le (similarity a b) = true ∧ (similarity a b).le .one = true) := by
  rw [editDistance_eq, editDistance_eq]
  refine ⟨rfl, isLeast_leastEdits _ _, leastEdits_comm _ _, ?_, leastEdits_le_max _ _, ?_⟩
  · rw [leastEdits_eq_zero, String.toList_inj]
  · intro short
    obtain ⟨units, le, same⟩ := similarity_eq_finite short
    rw [same, Number.zero, Number.one]
    exact ⟨Number.finite_le.2 (Nat.zero_le _), Number.finite_le.2 le⟩

theorem editDistance_least_kitten :
    editDistance "kitten".toList "sitting".toList = 3 ∧
      (similarity "kitten" "sitting").le .one = true := by
  obtain ⟨-, -, -, -, -, bounds⟩ := editDistance_least "kitten" "sitting"
  exact ⟨by decide, (bounds (by decide +kernel)).2⟩

end TelemetryQuery.Field
