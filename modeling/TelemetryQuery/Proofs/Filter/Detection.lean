import TelemetryQuery.Proofs.Filter.Alternatives
import TelemetryQuery.Proofs.Filter.Substitution
/- What detection finds in alternatives. -/
namespace TelemetryQuery.Text

section Distinct

variable {α β : Type} [BEq α] [LawfulBEq α]

theorem distinct_filter (p : α → Bool) (items : List α) :
    distinct (items.filter p) = (distinct items).filter p := by
  induction items with
  | nil => rfl
  | cons item items ih =>
    rw [distinct, List.filter_cons, List.filter_cons]
    cases kept : p item with
    | true => simp [distinct, ih, List.filter_filter, Bool.and_comm]
    | false =>
      have other : ∀ a, (p a && a != item) = p a := by
        intro a
        by_cases same : a = item
        · simp [same, kept]
        · simp [same]
      simp [ih, List.filter_filter, other]

theorem distinct_append (first second : List α) :
    distinct (first ++ second) =
      distinct first ++ (distinct second).filter (!first.contains ·) := by
  induction first with
  | nil => simp [distinct]
  | cons item first ih =>
    have neither : ∀ a, (a != item && !first.contains a) = !(item :: first).contains a := by
      intro a
      simp [bne]
    simp only [List.cons_append, distinct, ih, List.filter_append, List.filter_filter, neither]

@[simp]
theorem distinct_distinct (items : List α) : distinct (distinct items) = distinct items := by
  induction items with
  | nil => rfl
  | cons item items ih => simp [distinct, distinct_filter, ih, List.filter_filter]

/-- Repetitions may be left out of the parts before they are left out of the whole. -/
theorem distinct_flatMap_distinct (f : β → List α) (parts : List β) :
    distinct (parts.flatMap fun part => distinct (f part)) = distinct (parts.flatMap f) := by
  induction parts with
  | nil => rfl
  | cons part parts ih =>
    have same : ∀ a, (distinct (f part)).contains a = (f part).contains a := by
      intro a
      simp [mem_distinct]
    simp only [List.flatMap_cons, distinct_append, distinct_distinct, ih, same]

end Distinct

theorem distinct_eq_nil {α : Type} [BEq α] {items : List α} : distinct items = [] ↔ items = [] := by
  cases items <;> simp [distinct]

end TelemetryQuery.Text

namespace TelemetryQuery.Filter

mutual

/-- Detection does not look at the places of keys. -/
theorem Term.detect_unplaced (negated : Bool) (constraints : Constraints) : ∀ term : Term,
    term.unplaced.detect negated constraints = term.detect negated constraints
  | .atom flip atom => by cases atom <;> rfl
  | .group flip branches => by
    rw [Term.unplaced, Term.detect, Term.detect, detectBranches_unplaced]

theorem detectBranches_unplaced (negated : Bool) (constraints : Constraints) :
    ∀ branches : List (List Term),
      detectBranches negated constraints (unplacedBranches branches) =
        detectBranches negated constraints branches
  | [] => rfl
  | [terms] => by
    rw [unplacedBranches, unplacedBranches, detectBranches, detectBranches,
      detectTerms_unplaced negated constraints terms]
  | terms :: second :: rest => by
    have first := detectTerms_unplaced negated constraints terms
    have others := detectAlternatives_unplaced negated constraints (second :: rest)
    rw [unplacedBranches] at others
    simp only [unplacedBranches, detectBranches, first, others]

theorem detectAlternatives_unplaced (negated : Bool) (constraints : Constraints) :
    ∀ branches : List (List Term),
      detectAlternatives negated constraints (unplacedBranches branches) =
        detectAlternatives negated constraints branches
  | [] => rfl
  | terms :: rest => by
    rw [unplacedBranches, detectAlternatives, detectAlternatives,
      detectTerms_unplaced negated constraints terms,
      detectAlternatives_unplaced negated constraints rest]

theorem detectTerms_unplaced (negated : Bool) (constraints : Constraints) :
    ∀ terms : List Term,
      detectTerms negated constraints (unplacedTerms terms) =
        detectTerms negated constraints terms
  | [] => rfl
  | term :: rest => by
    rw [unplacedTerms, detectTerms, detectTerms, Term.detect_unplaced negated constraints term]
    simp only [detectTerms_unplaced negated _ rest]

end

/-- Detection in a text that is cut into the words of a filter. -/
theorem detect_of_read {text : String} {query found : Query} (read : parse text = .ok found)
    (same : Query.unplaced found = Query.unplaced query) :
    detectContradictions text = .ok query.contradictions := by
  have kept : ∀ branches other, unplacedBranches branches = unplacedBranches other →
      detectBranches false [] branches = detectBranches false [] other := by
    intro branches other same
    rw [← detectBranches_unplaced, same, detectBranches_unplaced]
  rw [detectContradictions, read]
  refine congrArg Except.ok ?_
  cases found with
  | none =>
    cases query with
    | none => rfl
    | some branches => cases same
  | some branches =>
    cases query with
    | none => cases same
    | some other =>
      rw [Query.contradictions, Query.contradictions, Option.elim_some, Option.elim_some,
        kept branches other (Option.some.inj same)]

theorem detectAlternatives_eq_flatMap (negated : Bool) (constraints : Constraints)
    (branches : Disjunction) :
    detectAlternatives negated constraints branches =
      branches.flatMap fun terms => (detectTerms negated constraints terms).2 := by
  induction branches with
  | nil => rfl
  | cons terms rest ih => rw [detectAlternatives, ih, List.flatMap_cons]

/-- The contradictions of alternatives are those of each of them. -/
theorem contradictions_some (branches : Disjunction) :
    Query.contradictions (some branches) =
      Text.distinct (branches.flatMap fun terms => (detectTerms false [] terms).2) := by
  rw [Query.contradictions, Option.elim_some, Phrase.detectBranches_messages,
    detectAlternatives_eq_flatMap]

/-- What can be written is read as what was written. -/
theorem Phrase.Written.parse {branches : Disjunction}
    (written : (Phrase.branches branches).Written) :
    ∃ found, Filter.parse (Disjunction.render branches) = .ok found ∧
      Query.unplaced found = Query.unplaced (some branches) := by
  obtain ⟨words, spells, whole⟩ := written
  obtain ⟨printed, writes, spelled⟩ := spells.printed whole
  have asked : Query.Spelled (some branches) printed := spelled
  exact parse_of_writes writes asked

/-- The branches of what is spelled by whole words can be written. -/
theorem Spells.branches_written {branches : Disjunction} {words : List Word}
    (spells : Spells (.branches branches) words) (whole : ∀ word ∈ words, word.Whole) :
    ∀ branch ∈ branches, (Phrase.terms branch).Written := by
  induction branches generalizing words with
  | nil => simp
  | cons terms rest ih =>
    cases spells with
    | only first => exact List.forall_mem_singleton.2 ⟨_, first, whole⟩
    | either first others =>
      have written : (Phrase.terms terms).Written :=
        ⟨_, first, fun word mem => whole word (by simp [mem])⟩
      exact List.forall_mem_cons.2 ⟨written, ih others fun word mem => whole word (by simp [mem])⟩

theorem written_branches {branches : Disjunction} (nonempty : branches ≠ [])
    (each : ∀ branch ∈ branches, (Phrase.terms branch).Written) :
    (Phrase.branches branches).Written := by
  induction branches with
  | nil => exact absurd rfl nonempty
  | cons terms rest ih =>
    obtain ⟨first, others⟩ := List.forall_mem_cons.1 each
    cases rest with
    | nil => exact first.only
    | cons second rest =>
      exact first.between (rfl : Kind.or.isOpen = false) (ih (List.cons_ne_nil _ _) others) .either

theorem renderBranches_eq_map (branches : Disjunction) :
    renderBranches branches = branches.map fun terms => (Phrase.terms terms).render := by
  induction branches with
  | nil => rfl
  | cons terms rest ih => rw [renderBranches, ih, List.map_cons, Phrase.render]

/-- Detection in branches that are written with `OR` between them. -/
theorem detect_joined_branches {branches : Disjunction}
    (each : ∀ branch ∈ branches, (Phrase.terms branch).Written) :
    detectContradictions
        (Text.joinWith " OR " (branches.map fun terms => (Phrase.terms terms).render)) =
      .ok (Text.distinct (branches.flatMap fun terms => (detectTerms false [] terms).2)) := by
  by_cases empty : branches = []
  · subst empty
    exact detect_of_read parse_empty rfl
  · obtain ⟨found, read, same⟩ := (written_branches empty each).parse
    rw [Disjunction.render, renderBranches_eq_map] at read
    rw [detect_of_read read same, contradictions_some]

end TelemetryQuery.Filter
