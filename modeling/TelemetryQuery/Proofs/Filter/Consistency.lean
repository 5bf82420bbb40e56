import Mathlib.Data.List.Perm.Subperm
import TelemetryQuery.Proofs.Filter.Alternatives
import TelemetryQuery.Proofs.Filter.Range
/- Constraints on one field in which no contradiction is found, and what becomes of that when some
of them are left out. -/
namespace TelemetryQuery.Text

/-- Without repetitions there is at most one item if all are the same. -/
theorem distinct_length_le_one {α : Type} [BEq α] [LawfulBEq α] {items : List α} :
    (distinct items).length ≤ 1 ↔ ∀ a ∈ items, ∀ b ∈ items, a = b := by
  cases items with
  | nil => simp [distinct]
  | cons item rest =>
    have single : (distinct (item :: rest)).length ≤ 1 ↔ ∀ a ∈ rest, a = item := by
      simp [distinct, mem_distinct]
    rw [single]
    constructor
    · intro same a memA b memB
      have all : ∀ a ∈ item :: rest, a = item := List.forall_mem_cons.2 ⟨rfl, same⟩
      exact (all a memA).trans (all b memB).symm
    · intro same a mem
      exact same a (.tail _ mem) item (.head _)

end TelemetryQuery.Text

namespace TelemetryQuery.Filter

/-- What a constraint asks of a value, by its operator. -/
structure Constraint.Accepts (constraint : Constraint) (value : String) : Prop where
  equal : constraint.operator = .equal → value = constraint.operand
  notEqual : constraint.operator = .notEqual → value ≠ constraint.operand
  listed : constraint.operator = .isIn → value ∈ constraint.operands
  unlisted : constraint.operator = .notIn → ∀ other ∈ constraint.operands, other ≠ value
  ordered : constraint.operator.isOrder = true →
    (Number.ofText? value).all (meetsOrder · constraint) = true
  outside : constraint.operator = .notBetween → within value constraint = false
  matching : constraint.operator = .like ∨ constraint.operator = .ilike →
    matchesLike value constraint.operand = true

/-- Constraints that do not contradict each other, apart from values that lie outside of ranges. -/
structure Agreeing (constraints : List Constraint) : Prop where
  accepted : ∀ a ∈ constraints, a.operator = .equal → ∀ b ∈ constraints, b.Accepts a.operand
  apart : ∀ a ∈ constraints, a.operator = .isIn → ∀ b ∈ constraints, b.operator = .notIn →
    ∀ value ∈ a.operands, value ∉ b.operands
  feasible : infeasible (constraints.filter (·.operator.isOrder)) = false
  existing : ∀ a ∈ constraints, a.operator = .exist → ∀ b ∈ constraints, b.operator ≠ .notExist
  implied : ∀ a ∈ constraints, a.operator = .notExist →
    ∀ b ∈ constraints, b.operator.impliesExistence = false
  common : 2 ≤ (constraints.filter (·.operator == .between)).length →
    haveCommon (constraints.filter (·.operator == .between)) = true
  uncovered : ∀ a ∈ constraints, a.operator = .between → ∀ b ∈ constraints,
    b.operator = .notBetween → coveredBy (constraints.filter (·.operator == .notBetween)) a = false

/-- A value that is asked for lies in one of the ranges, if there are any. -/
def SomeRange (constraints : List Constraint) : Prop :=
  ∀ a ∈ constraints, a.operator = .equal → ∀ b ∈ constraints, b.operator = .between →
    ∃ range ∈ constraints, range.operator = .between ∧ within a.operand range = true

theorem findIf_eq_nil {holds : Bool} {contradiction : Contradiction} :
    findIf holds contradiction = [] ↔ holds = false := by
  cases holds <;> simp [findIf]

section Checks

variable {constraints : List Constraint}

theorem impliedExistence_eq_nil :
    ((constraints.find? (·.operator.impliesExistence)).map fun c =>
        Contradiction.impliedExistence c.operator).toList = [] ↔
      ∀ a ∈ constraints, a.operator.impliesExistence = false := by
  simp

theorem none_or_iff {P : Constraint → Prop} {Q : Prop} :
    (∀ a ∈ constraints, ¬P a) ∨ Q ↔ ∀ a ∈ constraints, P a → Q := by
  constructor
  · rintro (none | holds) a mem is
    · exact absurd is (none a mem)
    · exact holds
  · intro each
    by_cases some : ∃ a ∈ constraints, P a
    · obtain ⟨a, mem, is⟩ := some
      exact .inr (each a mem is)
    · exact .inl fun a mem is => some ⟨a, mem, is⟩

theorem meetsOrders_filter {value : String} :
    meetsOrders value (constraints.filter (·.operator.isOrder)) = true ↔
      ∀ a ∈ constraints, a.operator.isOrder = true →
        (Number.ofText? value).all (meetsOrder · a) = true := by
  rw [meetsOrders]
  cases Number.ofText? value with
  | none => simp
  | some number => simp only [Option.all_some, List.all_eq_true, List.mem_filter, and_imp]

/-- Nothing is found exactly if the constraints agree and the values are in some range. -/
theorem contradictions_eq_nil_iff :
    contradictions constraints = [] ↔ Agreeing constraints ∧ SomeRange constraints := by
  simp only [contradictions, List.append_eq_nil_iff, List.flatMap_eq_nil_iff, findIf_eq_nil,
    List.forall_mem_map, List.mem_filter, beq_iff_eq, and_imp, decide_eq_false_iff_not, not_lt,
    Text.distinct_length_le_one, Bool.not_eq_false', ite_eq_right_iff, Bool.not_eq_true',
    impliedExistence_eq_nil, beq_eq_false_iff_ne, Bool.and_eq_false_iff, List.isEmpty_iff,
    List.isEmpty_eq_false_iff, List.filter_eq_nil_iff, List.any_eq_true, List.contains_iff_mem,
    Bool.or_eq_true, meetsOrders_filter, none_or_iff, ← imp_iff_not_or, ne_eq, not_forall, not_not,
    forall_exists_index, and_assoc]
  -- What is left are the checks one by one; those on a value are what a constraint asks of it.
  constructor
  · rintro ⟨single, unequal, lists, apart, feasible, ordered, existing, implied, common, some,
      outside, uncovered, like⟩
    refine ⟨⟨?_, apart, feasible, existing, implied, common, uncovered⟩, some⟩
    intro a memA isA b memB
    exact ⟨single a memA isA b memB, unequal a memA isA b memB, (lists a memA isA).2 b memB,
      (lists a memA isA).1 b memB, ordered a memA isA b memB, outside a memA isA b memB,
      like a memA isA b memB⟩
  · rintro ⟨⟨meets, apart, feasible, existing, implied, common, uncovered⟩, some⟩
    exact ⟨fun a memA isA b memB => (meets a memA isA b memB).equal,
      fun a memA isA b memB => (meets a memA isA b memB).notEqual,
      fun a memA isA => ⟨fun b memB => (meets a memA isA b memB).unlisted,
        fun b memB => (meets a memA isA b memB).listed⟩,
      apart, feasible, fun a memA isA b memB => (meets a memA isA b memB).ordered,
      existing, implied, common, some,
      fun a memA isA b memB => (meets a memA isA b memB).outside,
      uncovered, fun a memA isA b memB => (meets a memA isA b memB).matching⟩

end Checks

/-- Constraints whose operands are finite numbers, or no numbers. -/
def AllFiniteText (constraints : List Constraint) : Prop :=
  ∀ a ∈ constraints, ∀ operand ∈ a.operands, finiteText operand = true

section Part

variable {part whole : List Constraint}

theorem AllFiniteText.filter (finite : AllFiniteText whole) (p : Constraint → Bool) :
    AllFiniteText (whole.filter p) :=
  fun a mem => finite a (List.mem_of_mem_filter mem)

theorem AllFiniteText.operand (finite : AllFiniteText whole) :
    ∀ a ∈ whole, finiteText a.operand = true := by
  intro a mem
  have each := finite a mem
  rw [Constraint.operand]
  cases operands : a.operands with
  | nil => decide +kernel
  | cons first rest => exact each first (by simp [operands])

theorem AllFiniteText.bounds (finite : AllFiniteText whole) :
    ∀ a ∈ whole, ∀ ends ∈ a.bounds?, FiniteEnds ends := by
  intro a mem ends known
  have each := finite a mem
  rw [Constraint.bounds?] at known
  split at known
  · next low high operands =>
    rw [operands, List.forall_mem_cons, List.forall_mem_singleton] at each
    simp only [Option.mem_def, Option.bind_eq_bind, Option.bind_eq_some_iff, Option.pure_def,
      Option.some.injEq] at known
    obtain ⟨first, readFirst, last, readLast, rfl⟩ := known
    exact ⟨isFinite_of_text each.1 readFirst, isFinite_of_text each.2 readLast⟩
  · cases known

theorem coveredBy_of_subset {range : Constraint} (within : part ⊆ whole)
    (covered : coveredBy part range = true) : coveredBy whole range = true := by
  unfold coveredBy at covered ⊢
  split
  · next none => simp [none] at covered
  · next low high some =>
    simp only [some, List.all_eq_true, List.any_eq_true] at covered ⊢
    intro probe mem
    obtain ⟨other, memOther, inside⟩ := covered probe mem
    exact ⟨other, within memOther, inside⟩

/-- Constraints that agree still do so when some of them are left out. -/
theorem Agreeing.of_subperm (finite : AllFiniteText whole) (within : part.Subperm whole)
    (agreeing : Agreeing whole) : Agreeing part where
  accepted a memA isA b memB :=
    agreeing.accepted a (within.subset memA) isA b (within.subset memB)
  apart a memA isA b memB := agreeing.apart a (within.subset memA) isA b (within.subset memB)
  feasible := by
    refine Bool.eq_false_iff.2 fun empty => ?_
    have none := infeasible_of_subset (finite.filter _).operand (within.filter _).subset empty
    rw [agreeing.feasible] at none
    cases none
  existing a memA isA b memB := agreeing.existing a (within.subset memA) isA b (within.subset memB)
  implied a memA isA b memB := agreeing.implied a (within.subset memA) isA b (within.subset memB)
  common several := by
    have ranges := within.filter (·.operator == .between)
    exact haveCommon_of_subset (finite.filter _).bounds ranges.subset
      (agreeing.common (several.trans ranges.length_le))
  uncovered a memA isA b memB isB := by
    have kept := agreeing.uncovered a (within.subset memA) isA b (within.subset memB) isB
    refine Bool.eq_false_iff.2 fun covered => ?_
    rw [coveredBy_of_subset (within.filter _).subset covered] at kept
    cases kept

end Part

end TelemetryQuery.Filter
