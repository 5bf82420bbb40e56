import Mathlib.Tactic.Linarith
import TelemetryQuery.Filter.Contradiction
import TelemetryQuery.Proofs.Number.Order
/- Order constraints and ranges of finite numbers: which numbers meet all of them, and when there is
no such number. -/
namespace TelemetryQuery

/-- Whether a number stands in an order relation to a bound; other operators ask nothing of it. -/
def Operator.Admits (operator : Operator) (bound x : ℚ) : Prop :=
  match operator with
  | greater => bound < x
  | greaterEq => bound ≤ x
  | less => x < bound
  | lessEq => x ≤ bound
  | _ => True

end TelemetryQuery

namespace TelemetryQuery.Filter

/-- Whether a number is above a lower bound, or on it if it belongs to the interval. -/
def Bound.Below (bound : Bound) (x : ℚ) : Prop :=
  bound.number.value < x ∨ bound.inclusive = true ∧ bound.number.value = x

/-- Whether a number is below an upper bound, or on it if it belongs to the interval. -/
def Bound.Above (bound : Bound) (x : ℚ) : Prop :=
  x < bound.number.value ∨ bound.inclusive = true ∧ x = bound.number.value

@[simp]
theorem Bound.below_open (number : Number) (x : ℚ) :
    Bound.Below ⟨number, false⟩ x ↔ number.value < x := by
  simp [Below]

@[simp]
theorem Bound.below_closed (number : Number) (x : ℚ) :
    Bound.Below ⟨number, true⟩ x ↔ number.value ≤ x := by
  simp [Below, le_iff_lt_or_eq]

@[simp]
theorem Bound.above_open (number : Number) (x : ℚ) :
    Bound.Above ⟨number, false⟩ x ↔ x < number.value := by
  simp [Above]

@[simp]
theorem Bound.above_closed (number : Number) (x : ℚ) :
    Bound.Above ⟨number, true⟩ x ↔ x ≤ number.value := by
  simp [Above, le_iff_lt_or_eq]

/-- Bounds that are numbers, as far as there are any. -/
def AllFinite (bounds : Option Bound) : Prop :=
  ∀ bound ∈ bounds, bound.number.isFinite = true

section Bound

variable {current : Option Bound} {bound : Bound}

theorem Bound.raise_finite (known : AllFinite current) (finite : bound.number.isFinite = true) :
    AllFinite (Bound.raise current bound) := by
  unfold Bound.raise
  split
  · simpa [AllFinite] using finite
  · split
    · simpa [AllFinite] using finite
    · exact known

theorem Bound.lower_finite (known : AllFinite current) (finite : bound.number.isFinite = true) :
    AllFinite (Bound.lower current bound) := by
  unfold Bound.lower
  split
  · simpa [AllFinite] using finite
  · split
    · simpa [AllFinite] using finite
    · exact known

/-- A raised bound leaves what both bounds leave. -/
theorem Bound.raise_below (known : AllFinite current) (bound : Bound)
    (finite : bound.number.isFinite = true) (x : ℚ) :
    (∀ low ∈ Bound.raise current bound, low.Below x) ↔
      (∀ low ∈ current, low.Below x) ∧ bound.Below x := by
  cases current with
  | none => simp [Bound.raise]
  | some old =>
    have finiteOld : old.number.isFinite = true := known old rfl
    have less := Number.lt_iff finiteOld finite
    have same := Number.same_iff finite finiteOld
    rw [Bound.raise]
    split <;> simp only [Option.mem_some_iff, forall_eq'] <;> grind [Bound.Below]

/-- A lowered bound leaves what both bounds leave. -/
theorem Bound.lower_above (known : AllFinite current) (bound : Bound)
    (finite : bound.number.isFinite = true) (x : ℚ) :
    (∀ high ∈ Bound.lower current bound, high.Above x) ↔
      (∀ high ∈ current, high.Above x) ∧ bound.Above x := by
  cases current with
  | none => simp [Bound.lower]
  | some old =>
    have finiteOld : old.number.isFinite = true := known old rfl
    have less := Number.lt_iff finite finiteOld
    have same := Number.same_iff finite finiteOld
    rw [Bound.lower]
    split <;> simp only [Option.mem_some_iff, forall_eq'] <;> grind [Bound.Above]

end Bound

def Interval.Holds (interval : Interval) (x : ℚ) : Prop :=
  (∀ low ∈ interval.lower, low.Below x) ∧ ∀ high ∈ interval.upper, high.Above x

/-- Whether a number meets an order constraint; what is no number asks nothing. -/
def Constraint.Admits (constraint : Constraint) (x : ℚ) : Prop :=
  ∀ number ∈ Number.ofText? constraint.operand, constraint.operator.Admits number.value x

/-- Whether a text is a finite number, or no number at all. -/
def finiteText (text : String) : Bool :=
  (Number.ofText? text).all Number.isFinite

theorem isFinite_of_text {text : String} {number : Number} (finite : finiteText text = true)
    (read : Number.ofText? text = some number) : number.isFinite = true := by
  simpa [finiteText, read] using finite

structure Interval.Finite (interval : Interval) : Prop where
  lower : AllFinite interval.lower
  upper : AllFinite interval.upper

section Narrow

variable {interval : Interval} {constraint : Constraint}

theorem Interval.narrow_finite (known : interval.Finite)
    (finite : finiteText constraint.operand = true) : (interval.narrow constraint).Finite := by
  unfold Interval.narrow
  split
  · exact known
  · next number read =>
    have numeric := isFinite_of_text finite read
    split
    · exact ⟨Bound.raise_finite known.lower numeric, known.upper⟩
    · exact ⟨Bound.raise_finite known.lower numeric, known.upper⟩
    · exact ⟨known.lower, Bound.lower_finite known.upper numeric⟩
    · exact ⟨known.lower, Bound.lower_finite known.upper numeric⟩
    · exact known

/-- A narrowed interval holds what it held before and the constraint admits. -/
theorem Interval.narrow_holds (known : interval.Finite)
    (finite : finiteText constraint.operand = true) (x : ℚ) :
    (interval.narrow constraint).Holds x ↔ interval.Holds x ∧ constraint.Admits x := by
  unfold Interval.narrow Constraint.Admits
  cases read : Number.ofText? constraint.operand with
  | none => simp
  | some number =>
    have numeric := isFinite_of_text finite read
    have raised := fun inclusive => Bound.raise_below known.lower ⟨number, inclusive⟩ numeric x
    have lowered := fun inclusive => Bound.lower_above known.upper ⟨number, inclusive⟩ numeric x
    simp only [Option.mem_some_iff, forall_eq']
    cases constraint.operator with
    | greater | greaterEq =>
      simp only [Operator.Admits, Interval.Holds, raised, Bound.below_open, Bound.below_closed]
      exact and_right_comm
    | less | lessEq =>
      simp only [Operator.Admits, Interval.Holds, lowered, Bound.above_open, Bound.above_closed]
      exact and_assoc.symm
    | _ => simp [Operator.Admits]

/-- What constraints leave of an interval holds what each of them admits. -/
theorem Interval.foldl_narrow {ranges : List Constraint} (known : interval.Finite)
    (finite : ∀ range ∈ ranges, finiteText range.operand = true) :
    (ranges.foldl Interval.narrow interval).Finite ∧
      ∀ x, (ranges.foldl Interval.narrow interval).Holds x ↔
        interval.Holds x ∧ ∀ range ∈ ranges, range.Admits x := by
  induction ranges generalizing interval with
  | nil => simpa using known
  | cons range ranges ih =>
    obtain ⟨first, rest⟩ := List.forall_mem_cons.1 finite
    obtain ⟨bounded, holds⟩ := ih (Interval.narrow_finite known first) rest
    refine ⟨bounded, fun x => ?_⟩
    rw [List.foldl_cons, holds, Interval.narrow_holds known first, and_assoc, List.forall_mem_cons]

end Narrow

/-- Between two bounds lies a number unless they cross, or meet in a number that one leaves out. -/
theorem exists_between_bounds (low high : Bound) :
    (∃ x, low.Below x ∧ high.Above x) ↔
      low.number.value < high.number.value ∨
        low.number.value = high.number.value ∧ low.inclusive = true ∧ high.inclusive = true := by
  constructor
  · rintro ⟨x, below, above⟩
    grind [Bound.Below, Bound.Above]
  · rintro (less | ⟨same, left, right⟩)
    · obtain ⟨x, above, below⟩ := exists_between less
      exact ⟨x, .inl above, .inl below⟩
    · exact ⟨low.number.value, .inr ⟨left, rfl⟩, .inr ⟨right, same⟩⟩

/-- An interval is empty if no number lies in it. -/
theorem Interval.isEmpty_iff {interval : Interval} (known : interval.Finite) :
    interval.isEmpty = true ↔ ¬∃ x, interval.Holds x := by
  obtain ⟨lower, upper⟩ := interval
  cases lower with
  | none =>
    cases upper with
    | none => simp [isEmpty, Holds]
    | some high =>
      have some : ∃ x, high.Above x := ⟨high.number.value - 1, .inl (by linarith)⟩
      simpa [isEmpty, Holds] using some
  | some low =>
    cases upper with
    | none =>
      have some : ∃ x, low.Below x := ⟨low.number.value + 1, .inl (by linarith)⟩
      simpa [isEmpty, Holds] using some
    | some high =>
      have finiteLow : low.number.isFinite = true := known.lower low rfl
      have finiteHigh : high.number.isFinite = true := known.upper high rfl
      simp only [Holds, Option.mem_some_iff, forall_eq', exists_between_bounds, isEmpty,
        Bool.or_eq_true, Bool.and_eq_true, Bool.not_eq_true', Bool.and_eq_false_iff,
        Number.lt_iff finiteHigh finiteLow, Number.same_iff finiteLow finiteHigh]
      grind

/-- Order constraints leave no number exactly if no rational number meets all of them. -/
theorem infeasible_iff {ranges : List Constraint}
    (finite : ∀ range ∈ ranges, finiteText range.operand = true) :
    infeasible ranges = true ↔ ¬∃ x : ℚ, ∀ range ∈ ranges, range.Admits x := by
  have unbounded : Interval.Finite ⟨none, none⟩ := ⟨by simp [AllFinite], by simp [AllFinite]⟩
  obtain ⟨bounded, holds⟩ := Interval.foldl_narrow unbounded finite
  have everything : ∀ x, Interval.Holds ⟨none, none⟩ x := by simp [Interval.Holds]
  rw [infeasible, Interval.isEmpty_iff bounded]
  simp only [holds, everything, true_and]

/-- What leaves no number leaves none together with more constraints. -/
theorem infeasible_of_subset {part whole : List Constraint}
    (finite : ∀ range ∈ whole, finiteText range.operand = true) (within : part ⊆ whole)
    (empty : infeasible part = true) : infeasible whole = true := by
  rw [infeasible_iff fun range mem => finite range (within mem)] at empty
  rw [infeasible_iff finite]
  rintro ⟨x, meets⟩
  exact empty ⟨x, fun range mem => meets range (within mem)⟩

/-- Whether both ends of a range are finite. -/
def FiniteEnds (ends : Number × Number) : Prop :=
  ends.1.isFinite = true ∧ ends.2.isFinite = true

/-- Whether a number lies between two ends, which belong to the range. -/
def Between (ends : Number × Number) (x : ℚ) : Prop :=
  ends.1.value ≤ x ∧ x ≤ ends.2.value

section Intersect

variable {a b : Number}

theorem isNaN_of_isFinite (finite : a.isFinite = true) : a.isNaN = false := by
  cases a with
  | finite => rfl
  | _ => cases finite

theorem maxNumber_cases (finiteA : a.isFinite = true) (finiteB : b.isFinite = true) :
    (maxNumber a b).isFinite = true ∧
      ∀ x, (maxNumber a b).value ≤ x ↔ a.value ≤ x ∧ b.value ≤ x := by
  have less := Number.lt_iff finiteA finiteB
  rw [maxNumber, isNaN_of_isFinite finiteA, isNaN_of_isFinite finiteB]
  cases order : a.lt b with
  | true =>
    have le := (less.1 order).le
    exact ⟨finiteB, fun x => ⟨fun below => ⟨le.trans below, below⟩, And.right⟩⟩
  | false =>
    have le : b.value ≤ a.value := not_lt.1 fun above => by simp [less.2 above] at order
    exact ⟨finiteA, fun x => ⟨fun below => ⟨below, le.trans below⟩, And.left⟩⟩

theorem minNumber_cases (finiteA : a.isFinite = true) (finiteB : b.isFinite = true) :
    (minNumber a b).isFinite = true ∧
      ∀ x, x ≤ (minNumber a b).value ↔ x ≤ a.value ∧ x ≤ b.value := by
  have less := Number.lt_iff finiteB finiteA
  rw [minNumber, isNaN_of_isFinite finiteA, isNaN_of_isFinite finiteB]
  cases order : b.lt a with
  | true =>
    have le := (less.1 order).le
    exact ⟨finiteB, fun x => ⟨fun above => ⟨above.trans le, above⟩, And.right⟩⟩
  | false =>
    have le : a.value ≤ b.value := not_lt.1 fun below => by simp [less.2 below] at order
    exact ⟨finiteA, fun x => ⟨fun above => ⟨above, above.trans le⟩, And.left⟩⟩

/-- The numbers that two ranges share are those in both. -/
theorem intersect_between {first second : Number × Number} (known : FiniteEnds first)
    (finite : FiniteEnds second) :
    FiniteEnds (intersect first second) ∧
      ∀ x, Between (intersect first second) x ↔ Between first x ∧ Between second x := by
  obtain ⟨finiteLow, low⟩ := maxNumber_cases known.1 finite.1
  obtain ⟨finiteHigh, high⟩ := minNumber_cases known.2 finite.2
  refine ⟨⟨finiteLow, finiteHigh⟩, fun x => ?_⟩
  simp only [Between, intersect, low, high]
  exact and_and_and_comm

theorem foldl_intersect {first : Number × Number} {rest : List (Number × Number)}
    (known : FiniteEnds first) (finite : ∀ ends ∈ rest, FiniteEnds ends) :
    FiniteEnds (rest.foldl intersect first) ∧
      ∀ x, Between (rest.foldl intersect first) x ↔
        Between first x ∧ ∀ ends ∈ rest, Between ends x := by
  induction rest generalizing first with
  | nil => simpa using known
  | cons second rest ih =>
    obtain ⟨finiteSecond, finiteRest⟩ := List.forall_mem_cons.1 finite
    obtain ⟨bounded, shared⟩ := intersect_between known finiteSecond
    obtain ⟨boundedAll, sharedAll⟩ := ih bounded finiteRest
    refine ⟨boundedAll, fun x => ?_⟩
    rw [List.foldl_cons, sharedAll, shared, and_assoc, List.forall_mem_cons]

end Intersect

/-- Ranges have a number in common exactly if some rational number lies in each of those that have
numbers for ends. -/
theorem haveCommon_iff {ranges : List Constraint}
    (finite : ∀ range ∈ ranges, ∀ ends ∈ range.bounds?, FiniteEnds ends) :
    haveCommon ranges = true ↔
      ∃ x : ℚ, ∀ range ∈ ranges, ∀ ends ∈ range.bounds?, Between ends x := by
  have among : ∀ P : Number × Number → Prop,
      (∀ ends ∈ ranges.filterMap Constraint.bounds?, P ends) ↔
        ∀ range ∈ ranges, ∀ ends ∈ range.bounds?, P ends := by
    intro P
    simp only [List.mem_filterMap, Option.mem_def]
    grind
  simp only [← among] at finite ⊢
  rw [haveCommon]
  split
  · next none => simp [none]
  · next first rest some =>
    rw [some] at finite
    obtain ⟨finiteFirst, finiteRest⟩ := List.forall_mem_cons.1 finite
    obtain ⟨bounded, shared⟩ := foldl_intersect finiteFirst finiteRest
    rw [some]
    simp only [List.forall_mem_cons, ← shared, Number.le_iff bounded.1 bounded.2]
    constructor
    · intro le
      exact ⟨_, le_refl _, le⟩
    · rintro ⟨x, above, below⟩
      exact above.trans below

/-- Ranges that have a number in common have one as well without some of them. -/
theorem haveCommon_of_subset {part whole : List Constraint}
    (finite : ∀ range ∈ whole, ∀ ends ∈ range.bounds?, FiniteEnds ends) (within : part ⊆ whole)
    (common : haveCommon whole = true) : haveCommon part = true := by
  obtain ⟨x, inside⟩ := (haveCommon_iff finite).1 common
  exact (haveCommon_iff fun range mem => finite range (within mem)).2
    ⟨x, fun range mem => inside range (within mem)⟩

end TelemetryQuery.Filter
