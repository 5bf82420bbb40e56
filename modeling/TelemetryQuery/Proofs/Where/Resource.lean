import TelemetryQuery.Proofs.Where.Meaning
/- Clauses without their conditions on resources: when they accept all that the filter accepts. -/
namespace TelemetryQuery.Filter

variable {ref : KeyRef} {keys : List Key} {operator : Operator} {text : String} {test : Test}
  {value : Value}

theorem read_tokens (text : String) : (read text).tokens = (lex text).tokens := by
  unfold read
  dsimp only
  split
  · next empty => exact (List.isEmpty_iff.1 empty).symm
  · rfl

theorem or_not_mem_words (without : (read text).hasOr = false) :
    Word.fixed .or ∉ (lex text).tokens.map Token.word := by
  rw [Parsed.hasOr, read_tokens, List.any_eq_false] at without
  intro mem
  obtain ⟨token, among, same⟩ := List.mem_map.1 mem
  apply without token among
  rw [(Token.word_fixed rfl).1 same]
  rfl

end TelemetryQuery.Filter

namespace TelemetryQuery.Where

open TelemetryQuery.Field (Key)
open TelemetryQuery.Filter (KeyRef Test Atom Term Parameter Phrase Spells)
open TelemetryQuery.Sql (Fragment Word Formula Assignment)

/-- What follows from a predicate if parts of it are left out: the rest, or under an odd number of
negations the predicate from the rest. -/
def Predicate.Reduces : Bool → Predicate → Predicate → Prop
  | false, full, reduced => ∀ assignment, full.holds assignment → reduced.holds assignment
  | true, full, reduced => ∀ assignment, reduced.holds assignment → full.holds assignment

structure Outcome.Reduces (flipped : Bool) (full reduced : Outcome) : Prop where
  kept : reduced.predicate.isSome → full.predicate.isSome
  follows : ∀ predicate ∈ full.predicate, ∀ rest ∈ reduced.predicate, predicate.Reduces flipped rest

namespace Outcome

theorem clean_join {make : List Predicate → Predicate} {outcomes : List Outcome} :
    (Outcome.join make outcomes).Clean ↔ ∀ outcome ∈ outcomes, outcome.Clean := by
  simp only [Outcome.Clean, Outcome.join, List.mem_flatMap]
  constructor
  · intro clean outcome among report within
    exact clean report ⟨outcome, among, within⟩
  · rintro clean report ⟨outcome, among, within⟩
    exact clean outcome among report within

theorem clean_map {make : Predicate → Predicate} {outcome : Outcome} :
    (outcome.map make).Clean ↔ outcome.Clean :=
  Iff.rfl

theorem clean_negateIf {negated : Bool} {outcome : Outcome} :
    (outcome.negateIf negated).Clean ↔ outcome.Clean := by
  cases negated <;> exact Iff.rfl

theorem predicate_join_singleton (make : List Predicate → Predicate) (outcome : Outcome) :
    (Outcome.join make [outcome]).predicate = outcome.predicate := by
  cases made : outcome.predicate <;> simp [Outcome.join, made, Predicate.join?]

end Outcome

namespace Outcome.Reduces

variable {flipped : Bool} {full reduced : Outcome}

theorem refl (flipped : Bool) (outcome : Outcome) : Reduces flipped outcome outcome where
  kept := id
  follows := by
    intro predicate made rest same
    cases Option.mem_unique made same
    cases flipped <;> exact fun _ => id

theorem of_none (none : reduced.predicate = none) : Reduces flipped full reduced where
  kept := by simp [none]
  follows := by simp [none]

theorem congr {full' reduced' : Outcome} (reduces : Reduces flipped full reduced)
    (first : full'.predicate = full.predicate) (second : reduced'.predicate = reduced.predicate) :
    Reduces flipped full' reduced' where
  kept := by
    rw [first, second]
    exact reduces.kept
  follows := by
    rw [first, second]
    exact reduces.follows

theorem negateIf {negated : Bool} (reduces : Reduces (flipped != negated) full reduced) :
    Reduces flipped (full.negateIf negated) (reduced.negateIf negated) := by
  cases negated with
  | false => simpa [Outcome.negateIf] using reduces
  | true =>
    constructor
    · simpa [Outcome.negateIf, Outcome.map] using reduces.kept
    · simp only [Outcome.negateIf, if_true, Outcome.map, Option.mem_def,
        Option.map_eq_some_iff]
      rintro _ ⟨predicate, made, rfl⟩ _ ⟨rest, left, rfl⟩
      have follows := reduces.follows predicate made rest left
      cases flipped <;>
      · intro assignment
        have contrapositive := mt (follows assignment)
        simpa [Predicate.holds] using contrapositive

theorem group (reduces : Reduces flipped full reduced) :
    Reduces flipped (full.map .group) (reduced.map .group) := by
  constructor
  · simpa [Outcome.map] using reduces.kept
  · simp only [Outcome.map, Option.mem_def, Option.map_eq_some_iff]
    rintro _ ⟨predicate, made, rfl⟩ _ ⟨rest, left, rfl⟩
    have follows := reduces.follows predicate made rest left
    cases flipped <;>
    · intro assignment
      simpa [Predicate.holds] using follows assignment

section Join

variable {α : Type} {parts : List α} {fulls reduceds : α → Outcome}

theorem kept_join (each : ∀ part ∈ parts, Reduces flipped (fulls part) (reduceds part)) :
    (Outcome.join .all (parts.map reduceds)).predicate.isSome →
      (Outcome.join .all (parts.map fulls)).predicate.isSome := by
  simp only [Outcome.join, Option.isSome_iff_ne_none, ne_eq, Predicate.join?_eq_none,
    List.filterMap_eq_nil_iff, List.forall_mem_map]
  intro some none
  apply some
  intro part among
  have kept := mt (each part among).kept
  simpa [none part among] using kept

/-- In a conjunction, what is left of the parts follows from all of them. -/
theorem join_all (each : ∀ part ∈ parts, Reduces false (fulls part) (reduceds part)) :
    Reduces false (Outcome.join .all (parts.map fulls))
      (Outcome.join .all (parts.map reduceds)) := by
  refine ⟨kept_join each, fun predicate made rest left assignment => ?_⟩
  rw [Predicate.holds_join?_all made, Predicate.holds_join?_all left]
  simp only [List.all_eq_true, List.mem_filterMap, List.mem_map]
  rintro all reduced ⟨_, ⟨part, among, rfl⟩, kept⟩
  obtain ⟨full, whole⟩ := Option.isSome_iff_exists.1 ((each part among).kept (by simp [kept]))
  exact (each part among).follows full whole reduced kept assignment
    (all full ⟨_, ⟨part, among, rfl⟩, whole⟩)

/-- Under a negation all parts have to be left if one of them is. -/
theorem join_all_flipped (each : ∀ part ∈ parts, Reduces true (fulls part) (reduceds part))
    (undropped : ∀ part ∈ parts, (fulls part).predicate.isSome → (reduceds part).predicate.isSome) :
    Reduces true (Outcome.join .all (parts.map fulls))
      (Outcome.join .all (parts.map reduceds)) := by
  refine ⟨kept_join each, fun predicate made rest left assignment => ?_⟩
  rw [Predicate.holds_join?_all made, Predicate.holds_join?_all left]
  simp only [List.all_eq_true, List.mem_filterMap, List.mem_map]
  rintro all full ⟨_, ⟨part, among, rfl⟩, whole⟩
  obtain ⟨reduced, kept⟩ := Option.isSome_iff_exists.1 (undropped part among (by simp [whole]))
  exact (each part among).follows full whole reduced kept assignment
    (all reduced ⟨_, ⟨part, among, rfl⟩, kept⟩)

end Join

end Outcome.Reduces

theorem mapM_filter_ok {α β ε : Type} {f : α → Except ε β} (keep : α → Bool) {as : List α}
    {bs : List β} (ok : as.mapM f = .ok bs) : ∃ kept, (as.filter keep).mapM f = .ok kept := by
  induction as generalizing bs with
  | nil => exact ⟨[], rfl⟩
  | cons a as ih =>
    obtain ⟨first, rest, found, others, rfl⟩ := mapM_cons_ok ok
    obtain ⟨kept, same⟩ := ih others
    rw [List.filter_cons]
    split
    · exact ⟨first :: kept, by rw [List.mapM_cons, found, same]; rfl⟩
    · exact ⟨kept, same⟩

namespace Options

open Outcome (clean_join clean_map clean_negateIf predicate_join_singleton)

variable (options : Options)

/-- Leaving some fields out of an atom is safe if it has no others or no such ones; or if its
conditions hold together, and under an odd number of negations, if they are alternatives. -/
def safeAtom (flipped : Bool) : Atom → Bool
  | .comparison ref test =>
    let keys := (options.candidates ref).keys
    keys.all (·.context == .resource) || keys.all (·.context != .resource) ||
      (test.operator.isNegative != flipped)
  | _ => true

/-- Whether a term is left out with the conditions on resources. -/
def leavesOut (part : Term) : Bool :=
  (options.term true part).predicate.isNone

/-- Whether the terms of a conjunction are left out together or not at all. -/
def uniform (parts : List Term) : Bool :=
  parts.all options.leavesOut ||
    parts.all fun part => !options.leavesOut part || (options.term false part).predicate.isNone

mutual

/-- Whether what is left of a term accepts all that the term accepts; under an odd number of
negations, the other way round. Then conjunctions are left out as a whole. -/
def safeTerm (flipped : Bool) : Term → Bool
  | .atom negated atom => options.safeAtom (flipped != negated) atom
  | .group negated parts => safeBranches (flipped != negated) parts

def safeBranches (flipped : Bool) : List (List Term) → Bool
  | [] => true
  | parts :: rest =>
    safeTerms flipped parts && (!flipped || options.uniform parts) && safeBranches flipped rest

def safeTerms (flipped : Bool) : List Term → Bool
  | [] => true
  | part :: rest => safeTerm flipped part && safeTerms flipped rest

end

/-- Whether conditions on resources can be left out of a filter. -/
def safe (text : String) : Bool :=
  (Filter.read text).hasOr || (Filter.read text).query.all (options.safeBranches false)

theorem terms_eq_map (skipResource : Bool) (parts : List Term) :
    options.terms skipResource parts = parts.map (options.term skipResource) := by
  induction parts with
  | nil => rw [terms, List.map_nil]
  | cons part parts ih => rw [terms, ih, List.map_cons]

theorem conditions_clean :
    (options.conditions keys operator value).Clean ↔
      ∃ fragments, keys.mapM (fun key => options.table.condition key operator value) =
        .ok fragments := by
  unfold conditions
  cases keys.mapM fun key => options.table.condition key operator value with
  | ok fragments => simp [Outcome.Clean]
  | error reason => simp [Outcome.Clean, Outcome.reported, Problem.isWarning]

theorem conditions_kept (clean : (options.conditions keys operator value).Clean)
    (nonempty : keys ≠ []) : (options.conditions keys operator value).predicate.isSome := by
  obtain ⟨fragments, ok⟩ := options.conditions_clean.1 clean
  cases keys with
  | nil => exact absurd rfl nonempty
  | cons key keys =>
    obtain ⟨first, rest, -, -, rfl⟩ := mapM_cons_ok ok
    rw [Option.isSome_iff_ne_none]
    simp [conditions, ok, Predicate.join?_eq_none]

/-- The condition of a comparison of fields that are there. -/
def compared (keys : List Key) (test : Test) : Outcome :=
  match operandOf options.bindings test with
  | .dropped => .dropped
  | .emptyVariable name => .reported (.emptyVariable name)
  | .value value =>
    .after (wildcardWarning test.operator value) (options.conditions keys test.operator value)

theorem comparison_none (none : options.fields true ref = []) (test : Test) :
    options.comparison true ref test = ⟨.none, (options.candidates ref).reports⟩ := by
  have empty : (options.candidates ref).keys.filter (·.context != .resource) = [] := none
  simp [comparison, empty]

theorem comparison_some {skipResource : Bool} (nonempty : options.fields skipResource ref ≠ [])
    (test : Test) :
    options.comparison skipResource ref test =
      .after (options.candidates ref).reports
        (options.compared (options.fields skipResource ref) test) := by
  unfold comparison
  dsimp only
  rw [← fields]
  have some : (options.fields skipResource ref).isEmpty = false := by simpa using nonempty
  rw [some, Bool.false_and, if_neg Bool.false_ne_true]
  rfl

/-- The fields that are left are among all of them. -/
theorem fields_true (ref : KeyRef) :
    options.fields true ref = (options.fields false ref).filter (·.context != .resource) :=
  rfl

theorem fields_false_ne_nil (nonempty : options.fields true ref ≠ []) :
    options.fields false ref ≠ [] := by
  intro empty
  rw [fields_true, empty] at nonempty
  exact nonempty rfl

theorem compared_clean_filter (keep : Key → Bool) (clean : (options.compared keys test).Clean) :
    (options.compared (keys.filter keep) test).Clean := by
  unfold compared at clean ⊢
  split
  · simp [Outcome.dropped, Outcome.Clean]
  · next operand =>
    rw [operand] at clean
    exact clean
  · next value operand =>
    rw [operand] at clean
    obtain ⟨cleanBefore, cleanAfter⟩ := List.forall_mem_append.1 clean
    obtain ⟨fragments, ok⟩ := options.conditions_clean.1 cleanAfter
    have left := options.conditions_clean.2 (mapM_filter_ok keep ok)
    exact List.forall_mem_append.2 ⟨cleanBefore, left⟩

theorem reports_comparison (skipResource : Bool) (ref : KeyRef) (test : Test) :
    (options.candidates ref).reports ⊆ (options.comparison skipResource ref test).reports := by
  unfold comparison
  dsimp only
  rw [← fields]
  split
  · exact List.Subset.refl _
  · exact List.subset_append_left _ _

theorem comparison_clean (clean : (options.comparison false ref test).Clean) :
    (options.comparison true ref test).Clean := by
  by_cases none : options.fields true ref = []
  · rw [options.comparison_none none]
    exact fun report among => clean report (options.reports_comparison false ref test among)
  · rw [options.comparison_some (options.fields_false_ne_nil none)] at clean
    rw [options.comparison_some none]
    obtain ⟨cleanKey, cleanTest⟩ := List.forall_mem_append.1 clean
    exact List.forall_mem_append.2 ⟨cleanKey, options.compared_clean_filter _ cleanTest⟩

/-- If fields are left out of conditions that hold together, the rest follows; conditions that are
alternatives follow from the rest. -/
theorem conditions_reduces (keep : Key → Bool) (nonempty : keys ≠ [])
    (clean : (options.conditions keys operator value).Clean) :
    Outcome.Reduces (!operator.isNegative) (options.conditions keys operator value)
      (options.conditions (keys.filter keep) operator value) := by
  refine ⟨fun _ => options.conditions_kept clean nonempty, fun predicate made rest left => ?_⟩
  have within : options.conditionsOn (keys.filter keep) operator value ⊆
      options.conditionsOn keys operator value :=
    (List.filter_sublist.filterMap _).subset
  cases negative : operator.isNegative with
  | true =>
    intro assignment
    rw [options.holds_conditions made, options.holds_conditions left, if_pos negative,
      if_pos negative, List.all_eq_true, List.all_eq_true]
    exact fun all fragment among => all fragment (within among)
  | false =>
    intro assignment
    rw [options.holds_conditions made, options.holds_conditions left,
      if_neg (by simp [negative]), if_neg (by simp [negative]), List.any_eq_true, List.any_eq_true]
    rintro ⟨fragment, among, holds⟩
    exact ⟨fragment, within among, holds⟩

theorem compared_reduces (keep : Key → Bool) (nonempty : keys ≠ [])
    (clean : (options.compared keys test).Clean) :
    Outcome.Reduces (!test.operator.isNegative) (options.compared keys test)
      (options.compared (keys.filter keep) test) := by
  unfold compared at clean ⊢
  split
  · exact .refl _ _
  · exact .refl _ _
  · next value operand =>
    rw [operand] at clean
    have cleanAfter := (List.forall_mem_append.1 clean).2
    exact (options.conditions_reduces keep nonempty cleanAfter).congr rfl rfl

theorem comparison_reduces {flipped : Bool} (clean : (options.comparison false ref test).Clean)
    (safe : options.safeAtom flipped (.comparison ref test) = true) :
    Outcome.Reduces flipped (options.comparison false ref test)
      (options.comparison true ref test) := by
  by_cases none : options.fields true ref = []
  · rw [options.comparison_none none]
    exact .of_none rfl
  · have nonempty := options.fields_false_ne_nil none
    rw [options.comparison_some nonempty] at clean ⊢
    rw [options.comparison_some none]
    have cleanTest := (List.forall_mem_append.1 clean).2
    simp only [safeAtom, Bool.or_eq_true, List.all_eq_true] at safe
    rcases safe with (resources | apart) | polarity
    · -- All fields are of resources, so none of them would be left.
      refine absurd (List.filter_eq_nil_iff.2 fun key among => ?_) none
      simpa using resources key among
    · have same : options.fields true ref = options.fields false ref :=
        List.filter_eq_self.2 apart
      rw [same]
      exact .refl _ _
    · have sign : (!test.operator.isNegative) = flipped := by
        revert polarity
        cases test.operator.isNegative <;> cases flipped <;> decide
      have reduces := options.compared_reduces (·.context != .resource) nonempty cleanTest
      rw [sign] at reduces
      exact reduces.congr rfl rfl

theorem atom_reduces {flipped : Bool} {atom : Atom} (clean : (options.atom false atom).Clean)
    (safe : options.safeAtom flipped atom = true) :
    Outcome.Reduces flipped (options.atom false atom) (options.atom true atom) := by
  cases atom with
  | comparison ref test => exact options.comparison_reduces clean safe
  | call | quotedText | freeText | bareKey | bareValue => exact .refl _ _

theorem atom_clean {atom : Atom} (clean : (options.atom false atom).Clean) :
    (options.atom true atom).Clean := by
  cases atom with
  | comparison ref test => exact options.comparison_clean clean
  | call | quotedText | freeText | bareKey | bareValue => exact clean

mutual

/-- A filter without errors has none if conditions on resources are left out of it. -/
theorem term_clean : ∀ part : Term, (options.term false part).Clean →
    (options.term true part).Clean
  | .atom negated atom => by
    rw [term, term, clean_negateIf, clean_negateIf]
    exact options.atom_clean
  | .group negated parts => by
    rw [term, term, clean_negateIf, clean_negateIf, clean_map, clean_map, clean_join, clean_join]
    exact branches_clean parts

theorem branches_clean : ∀ parts : List (List Term),
    (∀ outcome ∈ options.branches false parts, outcome.Clean) →
    ∀ outcome ∈ options.branches true parts, outcome.Clean
  | [] => by simp [branches]
  | parts :: rest => by
    rw [branches, branches, List.forall_mem_cons, List.forall_mem_cons]
    rintro ⟨first, others⟩
    exact ⟨clean_join.2 (terms_clean parts (clean_join.1 first)), branches_clean rest others⟩

theorem terms_clean : ∀ parts : List Term,
    (∀ outcome ∈ options.terms false parts, outcome.Clean) →
    ∀ outcome ∈ options.terms true parts, outcome.Clean
  | [] => by simp [terms]
  | part :: rest => by
    rw [terms, terms, List.forall_mem_cons, List.forall_mem_cons]
    rintro ⟨first, others⟩
    exact ⟨term_clean part first, terms_clean rest others⟩

end

/-- What is left of a conjunction, from what is left of its terms. -/
theorem conjunction_reduces {flipped : Bool} {parts : List Term}
    (each : ∀ part ∈ parts, Outcome.Reduces flipped (options.term false part)
      (options.term true part))
    (uniform : flipped = true → options.uniform parts = true) :
    Outcome.Reduces flipped (Outcome.join .all (options.terms false parts))
      (Outcome.join .all (options.terms true parts)) := by
  rw [terms_eq_map, terms_eq_map]
  cases flipped with
  | false => exact .join_all each
  | true =>
    rcases Bool.or_eq_true_iff.1 (uniform rfl) with all | none
    · apply Outcome.Reduces.of_none
      rw [Outcome.join, Predicate.join?_eq_none, List.filterMap_eq_nil_iff, List.forall_mem_map]
      intro part among
      exact Option.isNone_iff_eq_none.1 (List.all_eq_true.1 all part among)
    · refine .join_all_flipped each fun part among => ?_
      have kept := List.all_eq_true.1 none part among
      revert kept
      cases full : (options.term false part).predicate <;>
        cases left : (options.term true part).predicate <;>
        simp [leavesOut, left]

/-- What is said of the parts of an expression if conditions on resources are left out of it. -/
def Reduced (flipped : Bool) : Phrase → Prop
  | .term part => Outcome.Reduces flipped (options.term false part) (options.term true part)
  | .terms parts => ∀ part ∈ parts,
      Outcome.Reduces flipped (options.term false part) (options.term true part)
  | .branches parts => Outcome.Reduces flipped (Outcome.join .any (options.branches false parts))
      (Outcome.join .any (options.branches true parts))

def safePhrase (flipped : Bool) : Phrase → Bool
  | .term part => options.safeTerm flipped part
  | .terms parts => options.safeTerms flipped parts
  | .branches parts => options.safeBranches flipped parts

/-- Without `OR` each disjunction has one branch, so parts are only left out of conjunctions. -/
theorem spells_reduced {phrase : Phrase} {words : List Filter.Word} (spell : Spells phrase words)
    (without : Filter.Word.fixed .or ∉ words) {flipped : Bool}
    (clean : ∀ outcome ∈ options.outcomes false phrase, outcome.Clean)
    (safe : options.safePhrase flipped phrase = true) : options.Reduced flipped phrase := by
  induction spell generalizing flipped with
  | @atom negated atom proper =>
    have cleanTerm := List.forall_mem_singleton.1 clean
    rw [Options.term, clean_negateIf] at cleanTerm
    rw [safePhrase, safeTerm] at safe
    rw [Reduced, Options.term, Options.term]
    exact (options.atom_reduces cleanTerm safe).negateIf
  | @group negated branches words _ ih =>
    have cleanTerm := List.forall_mem_singleton.1 clean
    rw [Options.term, clean_negateIf, clean_map, clean_join] at cleanTerm
    rw [safePhrase, safeTerm] at safe
    rw [Reduced, Options.term, Options.term]
    have inner := ih (fun mem => without (by simp [mem])) cleanTerm safe
    exact inner.group.negateIf
  | @lone term words _ ih =>
    rw [outcomes, Options.terms, Options.terms] at clean
    rw [safePhrase, safeTerms, safeTerms, Bool.and_true] at safe
    exact List.forall_mem_singleton.2 (ih without clean safe)
  | @joined term terms first rest _ _ ihFirst ihRest
  | @adjacent term terms first rest _ _ ihFirst ihRest =>
    rw [outcomes, Options.terms, List.forall_mem_cons] at clean
    rw [safePhrase, safeTerms, Bool.and_eq_true] at safe
    have reducedFirst := ihFirst (fun mem => without (by simp [mem]))
      (List.forall_mem_singleton.2 clean.1) safe.1
    have reducedRest := ihRest (fun mem => without (by simp [mem])) clean.2 safe.2
    exact List.forall_mem_cons.2 ⟨reducedFirst, reducedRest⟩
  | @only terms words _ ih =>
    rw [outcomes, Options.branches, Options.branches, List.forall_mem_singleton] at clean
    rw [safePhrase, safeBranches, safeBranches, Bool.and_true, Bool.and_eq_true] at safe
    have each := ih without (clean_join.1 clean) safe.1
    have joined := options.conjunction_reduces each fun odd => by simpa [odd] using safe.2
    rw [Reduced, Options.branches, Options.branches, Options.branches, Options.branches]
    exact joined.congr (predicate_join_singleton _ _) (predicate_join_singleton _ _)
  | either => exact absurd (by simp) without

/-- The same options, with conditions on resources left out or not. -/
def withSkip (skipResource : Bool) : Options :=
  { options with skipResource }

theorem atom_withSkip (chosen skipResource : Bool) (atom : Atom) :
    (options.withSkip chosen).atom skipResource atom = options.atom skipResource atom := by
  cases atom <;> rfl

mutual

theorem term_withSkip (chosen skipResource : Bool) : ∀ part : Term,
    (options.withSkip chosen).term skipResource part = options.term skipResource part
  | .atom negated atom => by rw [term, term, atom_withSkip]
  | .group negated parts => by rw [term, term, branches_withSkip chosen skipResource parts]

theorem branches_withSkip (chosen skipResource : Bool) : ∀ parts : List (List Term),
    (options.withSkip chosen).branches skipResource parts = options.branches skipResource parts
  | [] => by rw [branches, branches]
  | parts :: rest => by
    rw [branches, branches, terms_withSkip chosen skipResource parts,
      branches_withSkip chosen skipResource rest]

theorem terms_withSkip (chosen skipResource : Bool) : ∀ parts : List Term,
    (options.withSkip chosen).terms skipResource parts = options.terms skipResource parts
  | [] => by rw [terms, terms]
  | part :: rest => by
    rw [terms, terms, term_withSkip chosen skipResource part,
      terms_withSkip chosen skipResource rest]

end

theorem outcome_withSkip (chosen : Bool) (text : String) :
    (options.withSkip chosen).outcome text =
      options.query (chosen && !(Filter.read text).hasOr) (Filter.read text).query := by
  rw [outcome, skips]
  cases (Filter.read text).query with
  | none => rfl
  | some parts => exact congrArg (Outcome.join .any) (options.branches_withSkip _ _ parts)

/-- The outcome of a filter without errors has none if conditions on resources are left out. -/
theorem outcome_clean (clean : ((options.withSkip false).outcome text).Clean) :
    ((options.withSkip true).outcome text).Clean := by
  rw [outcome_withSkip, Bool.false_and] at clean
  rw [outcome_withSkip, Bool.true_and]
  cases (Filter.read text).hasOr with
  | true => exact clean
  | false =>
    cases parsed : (Filter.read text).query with
    | none => simp [query, Outcome.dropped, Outcome.Clean]
    | some parts =>
      rw [parsed] at clean
      exact clean_join.2 (options.branches_clean parts (clean_join.1 clean))

/-- Where conditions on resources can be left out, what is left accepts what the filter accepts. -/
theorem truth_withSkip (accepted : (Filter.read text).errors = [])
    (clean : ((options.withSkip false).outcome text).Clean) (safe : options.safe text = true)
    (assignment : Assignment) (holds : (options.withSkip false).truth text assignment = true) :
    (options.withSkip true).truth text assignment = true := by
  obtain ⟨-, spelled⟩ := Filter.read_sound accepted
  rw [outcome_withSkip, Bool.false_and] at clean
  rw [truth, outcome_withSkip, Bool.false_and] at holds
  rw [truth, outcome_withSkip, Bool.true_and]
  cases without : (Filter.read text).hasOr with
  | true => exact holds
  | false =>
    cases parsed : (Filter.read text).query with
    | none => rfl
    | some parts =>
      rw [parsed] at clean holds spelled
      rw [Options.safe, without, parsed, Bool.false_or] at safe
      have reduces := options.spells_reduced spelled (Filter.or_not_mem_words without)
        (clean_join.1 clean) safe
      rw [query, Option.elim_some] at holds ⊢
      rw [Bool.not_false]
      cases left : (Outcome.join .any (options.branches true parts)).predicate with
      | none => rfl
      | some rest =>
        obtain ⟨full, whole⟩ := Option.isSome_iff_exists.1 (reduces.kept (by rw [left]; rfl))
        rw [whole] at holds
        exact reduces.follows full whole rest left assignment holds

end Options

/-- A filter with its clause, and the formula that the clause is read as. -/
structure Compiles (options : Options) (text : String) (clause : Clause) (formula : Formula) :
    Prop where
  ok : compile options text = .ok clause
  spell : Word.Spell (options.words text) clause.fragment
  read : Formula.read (options.words text) = some formula

theorem compiles_of_ok {options : Options} {clause : Clause}
    (ok : compile options text = .ok clause) :
    ∃ formula, Compiles options text clause formula ∧
      ∀ assignment, formula.eval assignment = options.truth text assignment := by
  obtain ⟨formula, read, evals⟩ := options.read_words text
  exact ⟨formula, ⟨ok, spell_clause ok, read⟩, evals⟩

/-- Leaving out the conditions on resources weakens a filter that it is safe for: one with `OR` in
it, of which nothing is left out, or one in which conjunctions under an odd number of negations are
left out as a whole, and fields of one key only if that weakens the comparison. -/
theorem skip_weakens {options : Options} {text : String} {full : Clause}
    (safe : options.safe text = true)
    (ok : compile (options.withSkip false) text = .ok full) :
    ∃ whole reduced rest, Compiles (options.withSkip false) text full whole ∧
      Compiles (options.withSkip true) text reduced rest ∧
      ∀ assignment, whole.eval assignment = true → rest.eval assignment = true := by
  obtain ⟨accepted, clean, -⟩ := compile_eq_ok.1 ok
  obtain ⟨whole, compiled, evals⟩ := compiles_of_ok ok
  obtain ⟨rest, left, evalsRest⟩ := compiles_of_ok
    (compile_eq_ok.2 ⟨accepted, options.outcome_clean clean, rfl⟩)
  refine ⟨whole, _, rest, compiled, left, fun assignment holds => ?_⟩
  rw [evals] at holds
  rw [evalsRest]
  exact options.truth_withSkip accepted clean safe assignment holds

/-- Conjuncts on a resource and on another field, a negated comparison of a field of both, and a
negated conjunction that is left out as a whole. -/
theorem skip_weakens_negated :
    let options : Options :=
      { catalog := .ofKeys
          [{ name := "service.name", context := .resource, type := .string },
            { name := "code", context := .attributes, type := .number },
            { name := "k", context := .resource, type := .string },
            { name := "k", context := .scope, type := .string }] }
    let text := "service.name = 'a' code = 1 k != 'b' NOT (service.name = 'c' service.name = 'd')"
    options.safe text = true ∧ ∃ full, compile (options.withSkip false) text = .ok full ∧
      ∃ whole reduced rest, Compiles (options.withSkip false) text full whole ∧
        Compiles (options.withSkip true) text reduced rest ∧
        ∀ assignment, whole.eval assignment = true → rest.eval assignment = true := by
  intro options text
  have safe : options.safe text = true := by decide +kernel
  have some : (compile (options.withSkip false) text).isOk = true := by decide +kernel
  cases ok : compile (options.withSkip false) text with
  | error failure =>
    rw [ok] at some
    cases some
  | ok full => exact ⟨safe, full, rfl, skip_weakens safe ok⟩

/-- Under a negation a conjunct that is left out strengthens the filter: it accepts a record with
another name of the service, and what is left of it does not. -/
theorem skip_strengthens_negation :
    let options : Options :=
      { catalog := .ofKeys
          [{ name := "service.name", context := .resource, type := .string },
            { name := "http.status_code", context := .attributes, type := .number }] }
    let text := "NOT (service.name = 'a' AND http.status_code = 200)"
    ∃ full whole reduced rest assignment, Compiles (options.withSkip false) text full whole ∧
      Compiles (options.withSkip true) text reduced rest ∧
      whole.eval assignment = true ∧ rest.eval assignment = false := by
  intro options text
  have someFull : (compile (options.withSkip false) text).isOk = true := by decide +kernel
  have someReduced : (compile (options.withSkip true) text).isOk = true := by decide +kernel
  let assignment : Assignment := fun fragment => !fragment.sql.startsWith "(resources_string"
  cases okFull : compile (options.withSkip false) text with
  | error failure =>
    rw [okFull] at someFull
    cases someFull
  | ok full =>
    cases okReduced : compile (options.withSkip true) text with
    | error failure =>
      rw [okReduced] at someReduced
      cases someReduced
    | ok reduced =>
      obtain ⟨whole, compiled, evals⟩ := compiles_of_ok okFull
      obtain ⟨rest, left, evalsRest⟩ := compiles_of_ok okReduced
      refine ⟨full, whole, reduced, rest, assignment, compiled, left, ?_, ?_⟩
      · rw [evals]
        decide +kernel
      · rw [evalsRest]
        decide +kernel

end TelemetryQuery.Where
