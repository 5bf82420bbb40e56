import TelemetryQuery.Proofs.Filter.Conjunction
import TelemetryQuery.Proofs.Filter.Consistency
/- Conditions that hold together, in another order. Whether something is found depends on the order
only through ranges: a value is held against those that were read so far, and one that holds it is
enough. -/
namespace TelemetryQuery.Filter

theorem mem_constraintsOf {test : Test} {constraint : Constraint} :
    constraint ∈ constraintsOf false test ↔
      constraint = ⟨.exist, []⟩ ∧ test.operator.impliesExistence = true ∨
        constraint = test.constraint := by
  rw [constraintsOf, List.mem_append, List.mem_singleton]
  refine or_congr ?_ Iff.rfl
  split <;> simp_all [Operator.negateIf]

section Constraints

variable {atoms : List Atom} {field : String} {constraint : Constraint}

theorem mem_constraintsIn_on :
    constraint ∈ (constraintsIn atoms).on field ↔
      ∃ key test, .comparison key test ∈ atoms ∧ key.text = field ∧
        constraint ∈ constraintsOf false test := by
  simp only [Constraints.on, constraintsIn, List.mem_map, List.mem_filter, List.mem_flatMap,
    beq_iff_eq]
  constructor
  · rintro ⟨⟨name, own⟩, ⟨⟨atom, memAtom, mem⟩, named⟩, rfl⟩
    cases atom with
    | comparison key test =>
      obtain ⟨inner, memInner, same⟩ := List.mem_map.1 mem
      cases same
      exact ⟨key, test, memAtom, named, memInner⟩
    | _ => cases mem
  · rintro ⟨key, test, memAtom, named, mem⟩
    exact ⟨(key.text, constraint), ⟨⟨_, memAtom, List.mem_map_of_mem mem⟩, named⟩, rfl⟩

/-- A constraint comes from a comparison with its operator. -/
theorem exists_test (mem : constraint ∈ (constraintsIn atoms).on field)
    (other : constraint.operator ≠ .exist) :
    ∃ key test, .comparison key test ∈ atoms ∧ key.text = field ∧ constraint = test.constraint := by
  obtain ⟨key, test, memTest, named, own⟩ := mem_constraintsIn_on.1 mem
  obtain ⟨rfl, -⟩ | same := mem_constraintsOf.1 own
  · exact absurd rfl other
  · exact ⟨key, test, memTest, named, same⟩

theorem test_mem {key : KeyRef} {test : Test} (mem : .comparison key test ∈ atoms) :
    test.constraint ∈ (constraintsIn atoms).on key.text :=
  mem_constraintsIn_on.2 ⟨key, test, mem, rfl, mem_constraintsOf.2 (.inr rfl)⟩

end Constraints

/-- Whether nothing is found when all constraints are looked at together. -/
def Constraints.Clean (constraints : Constraints) : Prop :=
  ∀ field, contradictions (constraints.on field) = []

/-- Whether each value that is asked of a field lies in every range of the field. -/
def Constraints.EveryRange (constraints : Constraints) : Prop :=
  ∀ field, ∀ a ∈ constraints.on field, a.operator = .equal →
    ∀ b ∈ constraints.on field, b.operator = .between → within a.operand b = true

/-- Nothing is found in conditions that hold together if nothing is found in any first few. -/
theorem detectAtoms_eq_nil_iff {atoms : List Atom} :
    (detectAtoms [] atoms).2 = [] ↔ ∀ first, first <+: atoms → (constraintsIn first).Clean := by
  simp only [List.eq_nil_iff_forall_not_mem, mem_detectAtoms_initial, not_exists, not_and]
  constructor
  · intro none first initial field
    refine List.eq_nil_iff_forall_not_mem.2 fun contradiction mem => ?_
    exact none _ first initial field (Constraints.mem_messages.2 ⟨_, mem, rfl⟩)
  · intro clean message first initial field mem
    obtain ⟨contradiction, among, -⟩ := Constraints.mem_messages.1 mem
    rw [clean first initial field] at among
    cases among

/-- Comparisons whose operands are finite numbers, or no numbers. -/
def Atom.isFinite : Atom → Bool
  | .comparison _ test => test.literals.all fun value => finiteText value.content
  | _ => true

section Order

variable {atoms reordered first : List Atom}

theorem constraintsIn_finite (finite : ∀ atom ∈ atoms, atom.isFinite = true) (field : String) :
    AllFiniteText ((constraintsIn atoms).on field) := by
  intro constraint mem
  obtain ⟨key, test, memTest, -, own⟩ := mem_constraintsIn_on.1 mem
  obtain ⟨rfl, -⟩ | rfl := mem_constraintsOf.1 own
  · simp
  · simpa [Test.constraint, Atom.isFinite] using finite _ memTest

theorem constraintsIn_perm (perm : reordered.Perm atoms) (field : String) :
    ((constraintsIn reordered).on field).Perm ((constraintsIn atoms).on field) :=
  ((perm.flatMap_right _).filter _).map _

theorem constraintsIn_subperm (initial : first <+: reordered) (perm : reordered.Perm atoms)
    (field : String) :
    ((constraintsIn first).on field).Subperm ((constraintsIn atoms).on field) := by
  have sublist : ((constraintsIn first).on field).Sublist ((constraintsIn reordered).on field) := by
    obtain ⟨rest, rfl⟩ := initial
    rw [constraintsIn_append, Constraints.on_append]
    exact List.sublist_append_left _ _
  exact sublist.subperm.trans (constraintsIn_perm perm field).subperm

/-- The first few of some conditions agree if all of them do. -/
theorem agreeing_initial (finite : ∀ atom ∈ atoms, atom.isFinite = true)
    (initial : first <+: reordered) (perm : reordered.Perm atoms)
    (clean : (constraintsIn atoms).Clean) (field : String) :
    Agreeing ((constraintsIn first).on field) :=
  (contradictions_eq_nil_iff.1 (clean field)).1.of_subperm (constraintsIn_finite finite field)
    (constraintsIn_subperm initial perm field)

/-- Looked at together, constraints are the same in every order. -/
theorem clean_of_perm (finite : ∀ atom ∈ atoms, atom.isFinite = true)
    (perm : reordered.Perm atoms) (clean : (constraintsIn reordered).Clean) :
    (constraintsIn atoms).Clean := by
  intro field
  have same := constraintsIn_perm perm.symm field
  have numbers := constraintsIn_finite (fun atom mem => finite atom (perm.subset mem)) field
  obtain ⟨agreeing, some⟩ := contradictions_eq_nil_iff.1 (clean field)
  refine contradictions_eq_nil_iff.2 ⟨agreeing.of_subperm numbers same.subperm, ?_⟩
  intro a memA isA b memB isB
  obtain ⟨range, mem, inside⟩ := some a (same.subset memA) isA b (same.subset memB) isB
  exact ⟨range, same.symm.subset mem, inside⟩

/-- If the values lie in every range, nothing is found in any order. -/
theorem clean_of_everyRange (finite : ∀ atom ∈ atoms, atom.isFinite = true)
    (perm : reordered.Perm atoms) (clean : (constraintsIn atoms).Clean)
    (every : (constraintsIn atoms).EveryRange) : (detectAtoms [] reordered).2 = [] := by
  rw [detectAtoms_eq_nil_iff]
  intro first initial field
  have part := constraintsIn_subperm initial perm field
  refine contradictions_eq_nil_iff.2 ⟨agreeing_initial finite initial perm clean field, ?_⟩
  intro a memA isA b memB isB
  exact ⟨b, memB, isB, every field a (part.subset memA) isA b (part.subset memB) isB⟩

/-- Whether an atom asks that its field lies in a range. -/
def Atom.isRange : Atom → Bool
  | .comparison _ test => test.operator == .between
  | _ => false

/-- The ranges before all other conditions. -/
def rangesFirst (atoms : List Atom) : List Atom :=
  atoms.filter Atom.isRange ++ atoms.filter (!·.isRange)

theorem rangesFirst_perm (atoms : List Atom) : (rangesFirst atoms).Perm atoms :=
  List.filter_append_perm _ _

/-- If all ranges stand before the values, a value is only looked at with all ranges there are. -/
theorem clean_rangesFirst (finite : ∀ atom ∈ atoms, atom.isFinite = true)
    (clean : (constraintsIn atoms).Clean) : (detectAtoms [] (rangesFirst atoms)).2 = [] := by
  rw [detectAtoms_eq_nil_iff]
  intro first initial field
  have perm := rangesFirst_perm atoms
  have part := constraintsIn_subperm initial perm field
  refine contradictions_eq_nil_iff.2 ⟨agreeing_initial finite initial perm clean field, ?_⟩
  intro a memA isA b memB isB
  obtain early | late := List.prefix_or_prefix_of_prefix initial (List.prefix_append _ _)
  · -- Among the ranges there is no value.
    obtain ⟨key, test, mem, -, rfl⟩ := exists_test memA (by simp [isA])
    have ranged := (List.mem_filter.1 (early.subset mem)).2
    rw [Atom.isRange, beq_iff_eq] at ranged
    cases isA.symm.trans ranged
  · -- The range that holds the value is there.
    obtain ⟨range, mem, isRange, inside⟩ := (contradictions_eq_nil_iff.1 (clean field)).2 a
      (part.subset memA) isA b (part.subset memB) isB
    obtain ⟨key, test, memTest, rfl, rfl⟩ := exists_test mem (by simp [isRange])
    have there : .comparison key test ∈ first :=
      late.subset (List.mem_filter.2 ⟨memTest, beq_iff_eq.2 isRange⟩)
    exact ⟨test.constraint, test_mem there, isRange, inside⟩

section Pair

variable {key other : KeyRef} {value range : Test}

/-- A value and a range of the same field that does not hold it are a contradiction. -/
theorem not_clean_of_outside (isValue : value.operator = .equal)
    (isRange : range.operator = .between) (named : other.text = key.text)
    (outside : within value.constraint.operand range.constraint = false) :
    ¬(constraintsIn [.comparison key value, .comparison other range]).Clean := by
  intro clean
  have memValue : value.constraint ∈
      (constraintsIn [.comparison key value, .comparison other range]).on key.text :=
    test_mem (by simp)
  have memRange : range.constraint ∈
      (constraintsIn [.comparison key value, .comparison other range]).on key.text :=
    named ▸ test_mem (by simp)
  obtain ⟨found, mem, is, inside⟩ := (contradictions_eq_nil_iff.1 (clean key.text)).2
    value.constraint memValue isValue range.constraint memRange isRange
  obtain ⟨_, test, memTest, -, rfl⟩ := exists_test mem (by simp [is])
  simp only [List.mem_cons, Atom.comparison.injEq, List.not_mem_nil, or_false] at memTest
  obtain ⟨-, rfl⟩ | ⟨-, rfl⟩ := memTest
  · cases isValue.symm.trans is
  · cases outside.symm.trans inside

/-- They are reported if they stand before everything else. -/
theorem exists_reported (memValue : .comparison key value ∈ atoms)
    (isValue : value.operator = .equal) (memRange : .comparison other range ∈ atoms)
    (isRange : range.operator = .between) (named : other.text = key.text)
    (outside : within value.constraint.operand range.constraint = false) :
    ∃ reordered, reordered.Perm atoms ∧ (detectAtoms [] reordered).2 ≠ [] := by
  have different : Atom.comparison other range ≠ .comparison key value := by
    rintro ⟨rfl, rfl⟩
    cases isValue.symm.trans isRange
  have left : .comparison other range ∈ atoms.erase (.comparison key value) :=
    (List.mem_erase_of_ne different).2 memRange
  refine ⟨.comparison key value :: .comparison other range ::
    (atoms.erase (.comparison key value)).erase (.comparison other range), ?_, ?_⟩
  · exact ((List.perm_cons_erase left).symm.cons _).trans (List.perm_cons_erase memValue).symm
  · intro none
    exact not_clean_of_outside isValue isRange named outside
      (detectAtoms_eq_nil_iff.1 none _ ⟨_, rfl⟩)

end Pair

/-- The order makes no difference exactly if nothing is wrong with a value that is only in some of
the ranges. -/
theorem detectAtoms_reordered_iff (finite : ∀ atom ∈ atoms, atom.isFinite = true) :
    (∀ reordered, reordered.Perm atoms →
        ((detectAtoms [] reordered).2 = [] ↔ (detectAtoms [] atoms).2 = [])) ↔
      ((constraintsIn atoms).Clean → (constraintsIn atoms).EveryRange) := by
  constructor
  · -- One order finds nothing and another one something, so they cannot both agree with the given.
    intro same clean field a memA isA b memB isB
    by_contra outside
    obtain ⟨key, value, memValue, rfl, rfl⟩ := exists_test memA (by simp [isA])
    obtain ⟨other, range, memRange, named, rfl⟩ := exists_test memB (by simp [isB])
    obtain ⟨reordered, perm, found⟩ :=
      exists_reported memValue isA memRange isB named (by simpa using outside)
    have first := clean_rangesFirst finite clean
    exact found ((same reordered perm).2 ((same _ (rangesFirst_perm atoms)).1 first))
  · -- The verdict of each order is that on all constraints together.
    intro every reordered perm
    have verdict : ∀ order, order.Perm atoms →
        ((detectAtoms [] order).2 = [] ↔ (constraintsIn atoms).Clean) := by
      intro order same
      constructor
      · intro none
        exact clean_of_perm finite same (detectAtoms_eq_nil_iff.1 none order List.prefix_rfl)
      · intro clean
        exact clean_of_everyRange finite same clean (every clean)
    rw [verdict reordered perm, verdict atoms (.refl atoms)]

end Order

/-- The verdict on conditions with finite operands that are written with `AND` between them is the
same in every order exactly if, as soon as nothing is found in all constraints together, each value
that is asked of a field lies in every range of the field. -/
theorem verdict_reordered_iff {atoms : List Atom}
    (read : ∀ atom ∈ atoms, ∃ text query, parse text = .ok query ∧ atom ∈ Query.atoms query)
    (finite : ∀ atom ∈ atoms, atom.isFinite = true) :
    ∃ found : List Atom → List String,
      (∀ reordered, reordered.Perm atoms →
        detectContradictions (Text.joinWith " AND " (reordered.map Atom.render)) =
          .ok (found reordered)) ∧
      ((∀ reordered, reordered.Perm atoms → (found reordered = [] ↔ found atoms = [])) ↔
        ((constraintsIn atoms).Clean → (constraintsIn atoms).EveryRange)) := by
  have each : ∀ atom ∈ atoms, atom.Written := by
    intro atom mem
    obtain ⟨text, query, parsed, own⟩ := read atom mem
    exact parse_atoms_written parsed atom own
  refine ⟨fun order => Text.distinct (detectAtoms [] order).2, ?_, ?_⟩
  · intro reordered perm
    exact detect_joined_atoms fun atom mem => each atom (perm.subset mem)
  · simp only [Text.distinct_eq_nil]
    exact detectAtoms_reordered_iff finite

/-- A value between two ranges that both hold it, and an operand that is no number. -/
theorem verdict_reordered_iff_ranges :
    let text := "a BETWEEN 1 AND 12 AND b LIKE 'x%' AND a = 5 AND a BETWEEN 2 AND '2e1'"
    let atoms := Query.atoms (read text).query
    parse text = .ok (read text).query ∧ atoms.length = 4 ∧
      (∀ atom ∈ atoms, atom.isFinite = true) ∧
      ∃ found : List Atom → List String,
        (∀ reordered, reordered.Perm atoms →
          detectContradictions (Text.joinWith " AND " (reordered.map Atom.render)) =
            .ok (found reordered)) ∧
        ((∀ reordered, reordered.Perm atoms → (found reordered = [] ↔ found atoms = [])) ↔
          ((constraintsIn atoms).Clean → (constraintsIn atoms).EveryRange)) := by
  intro text atoms
  obtain ⟨accepted, length, finite⟩ :
      (read text).errors = [] ∧ atoms.length = 4 ∧ ∀ atom ∈ atoms, atom.isFinite = true := by
    decide +kernel
  have parsed : parse text = .ok (read text).query := parse_eq_ok.2 ⟨accepted, rfl⟩
  exact ⟨parsed, length, finite,
    verdict_reordered_iff (fun atom mem => ⟨text, _, parsed, mem⟩) finite⟩

/-- A value that only one of two ranges holds is reported if the other range comes first, and is not
if both ranges come before it, although no record can meet the conditions. -/
theorem verdict_changed_by_order :
    let conditions := ["a = 5", "a BETWEEN 10 AND 20", "a BETWEEN 1 AND 12"]
    detectContradictions (Text.joinWith " AND " conditions) =
        .ok ["Field 'a' equals '5' which is outside BETWEEN range(s)"] ∧
      detectContradictions (Text.joinWith " AND " conditions.reverse) = .ok [] := by
  intro conditions
  exact ⟨eq_ok_of_toOption (by decide +kernel), eq_ok_of_toOption (by decide +kernel)⟩

end TelemetryQuery.Filter
