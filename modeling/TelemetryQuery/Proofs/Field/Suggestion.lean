import Mathlib.Data.List.Induction
import TelemetryQuery.Proofs.Field.EditDistance
import TelemetryQuery.Proofs.Number.Order
/- The name that is suggested for an unknown one is the best of the known names, in whatever order
these are given. -/
namespace TelemetryQuery

variable {catalog : Catalog} {names : List String} {name : String}

namespace Number

variable {a b : Number}

/-- A finite number is not below a threshold if it is at least the threshold; no number is below
what is not a number. -/
theorem lt_eq_false_iff (finiteA : a.isFinite = true) :
    a.lt b = false ↔ b.isNaN = true ∨ b.le a = true := by
  obtain ⟨negative, units, rfl⟩ := eq_finite finiteA
  cases b with
  | nan => simp [lt, isNaN]
  | infinite sign => simp [lt, isNaN, le, same]
  | finite sign size =>
    simp only [lt, isNaN, le, same, decide_eq_false_iff_not, Bool.false_eq_true, false_or,
      Bool.or_eq_true, beq_iff_eq, decide_eq_true_iff]
    omega

/-- A number below a threshold is less than one that is not. -/
theorem value_lt_of_threshold {threshold : Number} (finiteA : a.isFinite = true)
    (finiteB : b.isFinite = true) (below : a.lt threshold = true)
    (reaches : b.lt threshold = false) : a.value < b.value := by
  rw [← lt_iff finiteA finiteB]
  obtain ⟨negative, units, rfl⟩ := eq_finite finiteA
  obtain ⟨otherNegative, otherUnits, rfl⟩ := eq_finite finiteB
  cases threshold with
  | nan => cases below
  | infinite sign =>
    cases sign
    · cases reaches
    · cases below
  | finite sign size =>
    simp only [lt, decide_eq_true_iff, decide_eq_false_iff_not] at below reaches ⊢
    omega

end Number

namespace Field

/-- What makes one of some names the one to suggest: it is as like the unknown name as the
threshold asks, if that is a number; none is more like it, and of those that are as like it this is
the first in the order of texts. -/
structure Best (threshold : Number) (unknown : String) (names : List String) (name : String) :
    Prop where
  known : name ∈ names
  reaches : threshold.isNaN = true ∨ threshold.le (similarity unknown name) = true
  maximal : ∀ other ∈ names, (similarity unknown other).le (similarity unknown name) = true
  first : ∀ other ∈ names, (similarity unknown other).same (similarity unknown name) = true →
    name ≤ other

section Fold

variable {threshold : Number} {unknown : String}

/-- What a name does to the one found before: it is left out, taken, or found to be no better. -/
theorem better_cases (threshold : Number) (unknown : String) (best : Option (Number × String))
    (name : String) :
    let score := similarity unknown name
    (score.lt threshold = true ∧ better threshold unknown best name = best) ∨
      (score.lt threshold = false ∧ better threshold unknown best name = some (score, name) ∧
        ∀ found ∈ best, found.1.lt score = true) ∨
      (score.lt threshold = false ∧ better threshold unknown best name = best ∧
        ∃ found ∈ best, found.1.lt score = false) := by
  intro score
  cases below : score.lt threshold with
  | true => exact .inl ⟨rfl, if_pos below⟩
  | false =>
    have reaches := ne_true_of_eq_false below
    cases best with
    | none => exact .inr (.inl ⟨rfl, if_neg reaches, by simp⟩)
    | some found =>
      cases more : found.1.lt score with
      | true => exact .inr (.inl ⟨rfl, (if_neg reaches).trans (if_pos more), by simpa using more⟩)
      | false =>
        have kept : better threshold unknown (some found) name = some found :=
          (if_neg reaches).trans (if_neg (ne_true_of_eq_false more))
        exact .inr (.inr ⟨rfl, kept, found, rfl, more⟩)

/-- Nothing is found if all names are below the threshold. -/
theorem foldl_better_eq_none :
    names.foldl (better threshold unknown) none = none ↔
      ∀ name ∈ names, (similarity unknown name).lt threshold = true := by
  induction names using List.reverseRecOn with
  | nil => simp
  | append_singleton names name ih =>
    rw [List.foldl_append, List.foldl_cons, List.foldl_nil, List.forall_mem_append, ← ih,
      List.forall_mem_singleton]
    rcases better_cases threshold unknown (names.foldl (better threshold unknown) none) name with
      ⟨below, same⟩ | ⟨reaches, same, _⟩ | ⟨reaches, same, found, mem, _⟩
    · simp [below, same]
    · simp [reaches, same]
    · rw [same, Option.mem_def.1 mem]
      simp

/-- The best name in terms of rational numbers: every name is less like the unknown one, or as like
it and not before the best. -/
theorem best_iff (finite : ∀ name ∈ names, (similarity unknown name).isFinite = true) :
    Best threshold unknown names name ↔
      name ∈ names ∧ (similarity unknown name).lt threshold = false ∧
        ∀ other ∈ names, (similarity unknown other).value < (similarity unknown name).value ∨
          (similarity unknown other).value = (similarity unknown name).value ∧ name ≤ other := by
  constructor
  · rintro ⟨known, reaches, maximal, first⟩
    refine ⟨known, (Number.lt_eq_false_iff (finite name known)).2 reaches, fun other mem => ?_⟩
    have le := (Number.le_iff (finite other mem) (finite name known)).1 (maximal other mem)
    refine (lt_or_eq_of_le le).imp_right fun same => ⟨same, first other mem ?_⟩
    exact (Number.same_iff (finite other mem) (finite name known)).2 same
  · rintro ⟨known, reaches, others⟩
    refine ⟨known, (Number.lt_eq_false_iff (finite name known)).1 reaches, fun other mem => ?_,
      fun other mem same => ?_⟩
    · rw [Number.le_iff (finite other mem) (finite name known)]
      exact (others other mem).elim le_of_lt fun tie => le_of_eq tie.1
    · rw [Number.same_iff (finite other mem) (finite name known)] at same
      exact (others other mem).elim (fun less => absurd same less.ne) fun tie => tie.2

/-- What is found has its own score, and is the best of the names, if these are in order and their
scores are finite. -/
theorem best_of_foldl {score : Number} (ordered : names.Pairwise (· ≤ ·))
    (finite : ∀ name ∈ names, (similarity unknown name).isFinite = true)
    (found : names.foldl (better threshold unknown) none = some (score, name)) :
    score = similarity unknown name ∧ Best threshold unknown names name := by
  induction names using List.reverseRecOn generalizing score name with
  | nil => cases found
  | append_singleton names last ih =>
    obtain ⟨orderedNames, -, before⟩ := List.pairwise_append.1 ordered
    have finiteNames : ∀ name ∈ names, (similarity unknown name).isFinite = true :=
      fun name mem => finite name (List.mem_append_left _ mem)
    have finiteLast := finite last (by simp)
    rw [List.foldl_append, List.foldl_cons, List.foldl_nil] at found
    rw [best_iff finite]
    simp only [best_iff finiteNames] at ih
    rcases better_cases threshold unknown (names.foldl (better threshold unknown) none) last with
      ⟨below, same⟩ | ⟨reaches, same, less⟩ | ⟨reaches, same, top, mem, most⟩
    · -- The last name is below the threshold, which the best of the others is not.
      obtain ⟨own, known, enough, others⟩ := ih orderedNames finiteNames (same ▸ found)
      refine ⟨own, List.mem_append_left _ known, enough, ?_⟩
      refine List.forall_mem_append.2 ⟨others, List.forall_mem_singleton.2 (.inl ?_)⟩
      exact Number.value_lt_of_threshold finiteLast (finiteNames name known) below enough
    · -- The last name is more like the unknown one than the others, or these are all below.
      obtain ⟨rfl, rfl⟩ := Prod.mk.inj (Option.some.inj (same.symm.trans found))
      refine ⟨rfl, by simp, reaches, ?_⟩
      refine List.forall_mem_append.2 ⟨fun other mem => .inl ?_, by simp⟩
      cases best : names.foldl (better threshold unknown) none with
      | none =>
        have below := foldl_better_eq_none.1 best other mem
        exact Number.value_lt_of_threshold (finiteNames other mem) finiteLast below reaches
      | some top =>
        obtain ⟨own, known, -, others⟩ := ih orderedNames finiteNames best
        have more := less top best
        rw [own, Number.lt_iff (finiteNames _ known) finiteLast] at more
        exact (others other mem).elim (lt_trans · more) fun tie => tie.1 ▸ more
    · -- The last name is no better than the best of the others, and stands after it.
      obtain ⟨own, known, enough, others⟩ := ih orderedNames finiteNames (same ▸ found)
      obtain rfl := Option.some.inj (mem.symm.trans (same ▸ found))
      refine ⟨own, List.mem_append_left _ known, enough, ?_⟩
      refine List.forall_mem_append.2 ⟨others, List.forall_mem_singleton.2 ?_⟩
      have le : (similarity unknown last).value ≤ (similarity unknown name).value := by
        rw [← not_lt, ← Number.lt_iff (finiteNames name known) finiteLast, ← own, most]
        exact Bool.false_ne_true
      exact (lt_or_eq_of_le le).imp_right fun tie => ⟨tie, before name known last (by simp)⟩

end Fold

theorem Best.unique {threshold : Number} {unknown : String} {a b : String}
    (finite : ∀ name ∈ names, (similarity unknown name).isFinite = true)
    (first : Best threshold unknown names a) (second : Best threshold unknown names b) : a = b := by
  obtain ⟨knownA, -, othersA⟩ := (best_iff finite).1 first
  obtain ⟨knownB, -, othersB⟩ := (best_iff finite).1 second
  rcases othersA b knownB with less | ⟨tie, le⟩
  · rcases othersB a knownA with more | ⟨same, _⟩
    · exact absurd less (lt_asymm more)
    · exact absurd same.symm less.ne
  · rcases othersB a knownA with more | ⟨_, ge⟩
    · exact absurd tie.symm more.ne
    · exact String.le_antisymm le ge

/-- What is best does not depend on the order of the names. -/
theorem Best.perm {threshold : Number} {unknown : String} {others : List String}
    (perm : names.Perm others) (best : Best threshold unknown names name) :
    Best threshold unknown others name where
  known := perm.mem_iff.1 best.known
  reaches := best.reaches
  maximal other mem := best.maximal other (perm.mem_iff.2 mem)
  first other mem := best.first other (perm.mem_iff.2 mem)

namespace Catalog

/-- The known names in the order of texts. -/
theorem sorted_names (catalog : Catalog) :
    (catalog.names.mergeSort (· ≤ ·)).Perm catalog.names ∧
      (catalog.names.mergeSort (· ≤ ·)).Pairwise (· ≤ ·) := by
  refine ⟨List.mergeSort_perm _ _, ?_⟩
  have sorted : (catalog.names.mergeSort (· ≤ ·)).Pairwise fun a b => decide (a ≤ b) = true := by
    refine List.pairwise_mergeSort (fun a b c first second => ?_) (fun a b => ?_) _
    · simp only [decide_eq_true_iff] at first second ⊢
      exact String.le_trans first second
    · simpa using String.le_total a b
  simpa using sorted

/-- The order in which the names are given does not matter. -/
theorem suggest_perm {other : Catalog} (perm : other.Perm catalog) (threshold : Number)
    (unknown : String) : other.suggest threshold unknown = catalog.suggest threshold unknown := by
  obtain ⟨permOther, sortedOther⟩ := sorted_names other
  obtain ⟨permCatalog, sortedCatalog⟩ := sorted_names catalog
  have same : other.names.mergeSort (· ≤ ·) = catalog.names.mergeSort (· ≤ ·) := by
    refine List.Perm.eq_of_pairwise (fun a b _ _ => String.le_antisymm) sortedOther sortedCatalog ?_
    exact permOther.trans ((perm.map _).trans permCatalog.symm)
  rw [suggest, suggest, same]

theorem suggest_eq_none {threshold : Number} {unknown : String} :
    catalog.suggest threshold unknown = none ↔
      ∀ name ∈ catalog.names, (similarity unknown name).lt threshold = true := by
  rw [suggest, Option.map_eq_none_iff, foldl_better_eq_none]
  simp only [List.mem_mergeSort]

theorem best_of_suggest {threshold : Number} {unknown : String}
    (finite : ∀ name ∈ catalog.names, (similarity unknown name).isFinite = true)
    (suggested : catalog.suggest threshold unknown = some name) :
    Best threshold unknown catalog.names name := by
  obtain ⟨perm, sorted⟩ := sorted_names catalog
  obtain ⟨⟨score, found⟩, fold, rfl⟩ := Option.map_eq_some_iff.1 suggested
  exact (best_of_foldl sorted (fun name mem => finite name (perm.mem_iff.1 mem)) fold).2.perm perm

/-- The name that is suggested is the best of the known names. There is none if all of them are
below the threshold; else it is a known name that is as like the unknown one as the threshold asks,
none is more like it, and of those that are as like it the suggested one is the first. The order in
which the names are given does not matter. The scores are numbers, as long as the lengths of the
names are numbers of the format at all. -/
theorem suggest_best (catalog : Catalog) (threshold : Number) (unknown : String) :
    (catalog.suggest threshold unknown = none ↔
      ∀ name ∈ catalog.names, (similarity unknown name).lt threshold = true) ∧
    (∀ other : Catalog, other.Perm catalog →
      other.suggest threshold unknown = catalog.suggest threshold unknown) ∧
    ((∀ name ∈ unknown :: catalog.names, name.toList.length < 2 ^ 1023) →
      (∀ name ∈ catalog.names, (similarity unknown name).isNaN = false) ∧
        ∀ name, catalog.suggest threshold unknown = some name ↔
          Best threshold unknown catalog.names name) := by
  refine ⟨suggest_eq_none, fun other perm => suggest_perm perm threshold unknown, fun short => ?_⟩
  obtain ⟨shortUnknown, shortNames⟩ := List.forall_mem_cons.1 short
  have scores (name : String) (mem : name ∈ catalog.names) :
      ∃ units ≤ Number.unitsPerOne, similarity unknown name = .finite false units :=
    similarity_eq_finite (Nat.max_lt.2 ⟨shortUnknown, shortNames name mem⟩)
  have finite : ∀ name ∈ catalog.names, (similarity unknown name).isFinite = true := by
    intro name mem
    obtain ⟨units, -, same⟩ := scores name mem
    rw [same]
    rfl
  refine ⟨fun name mem => ?_, fun name => ⟨best_of_suggest finite, fun best => ?_⟩⟩
  · obtain ⟨units, -, same⟩ := scores name mem
    rw [same]
    rfl
  · -- The best name is not below the threshold, so something is suggested, which is best too.
    have reaches := ((best_iff finite).1 best).2.1
    cases suggested : catalog.suggest threshold unknown with
    | none =>
      have below := suggest_eq_none.1 suggested name best.known
      exact absurd (below.symm.trans reaches) Bool.true_eq_false.mp
    | some found => rw [Best.unique finite (best_of_suggest finite suggested) best]

/-- Two names that are as like the unknown one; the first in the order of texts comes last. -/
theorem suggest_best_tie :
    let catalog : Catalog := [("kc", []), ("kb", [])]
    (∀ name ∈ "ka" :: catalog.names, name.toList.length < 2 ^ 1023) ∧
      catalog.suggest ((Number.ofNat 1).div (.ofNat 2)) "ka" = some "kb" := by
  intro catalog
  have short : ∀ name ∈ "ka" :: catalog.names, name.toList.length < 2 ^ 1023 := by decide +kernel
  have best : Best ((Number.ofNat 1).div (.ofNat 2)) "ka" catalog.names "kb" :=
    ⟨by decide, by decide +kernel, by decide +kernel, by decide +kernel⟩
  exact ⟨short, (((suggest_best catalog _ "ka").2.2 short).2 "kb").2 best⟩

end Catalog

end Field

end TelemetryQuery
