import TelemetryQuery.Proofs.Where.Placeholder
import TelemetryQuery.Proofs.Where.Reading
/- The clause of a filter says what the filter says. -/
namespace TelemetryQuery.Filter

variable {predicate : Predicate} {text : String}

/-- Whether an atom asks for something not to hold. -/
def Atom.isNegative : Atom → Bool
  | .comparison _ test => test.operator.isNegative
  | _ => false

end TelemetryQuery.Filter

namespace TelemetryQuery.Where

open TelemetryQuery.Field (Key)
open TelemetryQuery.Filter (KeyRef Test Atom Term Parameter Phrase Spells)
open TelemetryQuery.Sql (Fragment Word Formula Assignment)

namespace Options

variable (options : Options)

/-- The fields that a comparison is about. -/
def fields (skipResource : Bool) (ref : KeyRef) : List Key :=
  if skipResource then (options.candidates ref).keys.filter (·.context != .resource)
  else (options.candidates ref).keys

def conditionsOn (keys : List Key) (operator : Operator) (value : Value) : List Fragment :=
  keys.filterMap fun key => (options.table.condition key operator value).toOption

def callConditions (function : Filter.Function) : List Parameter → List Fragment
  | .key ref :: first :: more =>
    let keys := (options.candidates ref).keys
    let values := (first :: more).map parameterValue
    let list := match values with
      | [.list items] => Value.list items
      | _ => .list values
    match function with
    | .hasToken => (tokenConditions values.head? keys).1
    | .has => (arrayConditions function (parameterValue first) keys).1
    | _ => (arrayConditions function list keys).1
  | _ => []

def searchConditions (text : String) : List Fragment :=
  options.conditionsOn options.fullText.toList .regexp (.text (Pattern.ofSearch text))

/-- The conditions of an atom, one for each field that it may be about. -/
def conditionsOf (skipResource : Bool) : Atom → List Fragment
  | .comparison ref test =>
    match operandOf options.bindings test with
    | .value value => options.conditionsOn (options.fields skipResource ref) test.operator value
    | _ => []
  | .call function parameters => options.callConditions function parameters
  | .quotedText raw => options.searchConditions (Text.unquote raw)
  | .freeText text => options.searchConditions text
  | .bareKey ref => options.searchConditions ref.text
  | .bareValue literal => options.searchConditions literal.content

variable (skipResource : Bool) (assignment : Assignment)

/-- An atom asks that one of its conditions holds, or all of them if it is negative. -/
def atomHolds (atom : Atom) : Bool :=
  if atom.isNegative then (options.conditionsOf skipResource atom).all assignment
  else (options.conditionsOf skipResource atom).any assignment

mutual

/-- Whether a term is true: connectives, negations and groups mean what they say. -/
def termHolds : Term → Bool
  | .atom negated atom => negated != options.atomHolds skipResource assignment atom
  | .group negated branches => negated != branchesHold branches

def branchesHold : List (List Term) → Bool
  | [] => false
  | terms :: rest => termsHold terms || branchesHold rest

def termsHold : List Term → Bool
  | [] => true
  | term :: rest => termHolds term && termsHold rest

end

def queryHolds (query : Filter.Query) : Bool :=
  query.elim true (options.branchesHold skipResource assignment)

theorem branchesHold_eq_any (branches : List (List Term)) :
    options.branchesHold skipResource assignment branches =
      branches.any (options.termsHold skipResource assignment) := by
  induction branches with
  | nil => rw [branchesHold, List.any_nil]
  | cons terms rest ih => rw [branchesHold, ih, List.any_cons]

theorem termsHold_eq_all (terms : List Term) :
    options.termsHold skipResource assignment terms =
      terms.all (options.termHolds skipResource assignment) := by
  induction terms with
  | nil => rw [termsHold, List.all_nil]
  | cons term rest ih => rw [termsHold, ih, List.all_cons]

end Options

/-- An outcome that is kept, and what its predicate says. -/
def Outcome.Means (outcome : Outcome) (truth : Assignment → Bool) : Prop :=
  ∃ predicate, outcome.predicate = some predicate ∧
    ∀ assignment, predicate.holds assignment = truth assignment

namespace Outcome.Means

variable {outcome : Outcome} {truth : Assignment → Bool} {outcomes : List Outcome}
  {truths : List (Assignment → Bool)}

theorem negateIf (means : outcome.Means truth) (negated : Bool) :
    (outcome.negateIf negated).Means fun assignment => negated != truth assignment := by
  obtain ⟨predicate, made, holds⟩ := means
  cases negated with
  | false => exact ⟨predicate, made, by simp [holds]⟩
  | true =>
    refine ⟨.not predicate, ?_, by simp [Predicate.holds, holds]⟩
    rw [Outcome.negateIf, if_pos rfl, Outcome.map, made, Option.map_some]

theorem group (means : outcome.Means truth) : (outcome.map .group).Means truth := by
  obtain ⟨predicate, made, holds⟩ := means
  refine ⟨.group predicate, ?_, by simp [Predicate.holds, holds]⟩
  rw [Outcome.map, made, Option.map_some]

/-- Outcomes that are all kept leave as many predicates. -/
theorem predicates (each : List.Forall₂ Means outcomes truths) :
    List.Forall₂ (fun predicate truth => ∀ assignment, Predicate.holds assignment predicate =
      truth assignment) (outcomes.filterMap Outcome.predicate) truths := by
  induction each with
  | nil => exact .nil
  | cons means _ ih =>
    obtain ⟨predicate, made, holds⟩ := means
    rw [List.filterMap_cons_some made]
    exact .cons holds ih

theorem predicates_ne_nil (each : List.Forall₂ Means outcomes truths) (nonempty : outcomes ≠ []) :
    outcomes.filterMap Outcome.predicate ≠ [] := by
  cases each with
  | nil => exact absurd rfl nonempty
  | cons means _ =>
    obtain ⟨predicate, made, -⟩ := means
    rw [List.filterMap_cons_some made]
    exact List.cons_ne_nil _ _

theorem join_all (each : List.Forall₂ Means outcomes truths) (nonempty : outcomes ≠ []) :
    (Outcome.join .all outcomes).Means fun assignment => truths.all (· assignment) := by
  have parts := predicates each
  obtain ⟨predicate, made⟩ := Option.ne_none_iff_exists'.1
    (mt Predicate.join?_eq_none.1 (predicates_ne_nil each nonempty) :
      Predicate.join? .all _ ≠ none)
  refine ⟨predicate, made, fun assignment => (Predicate.holds_join?_all made assignment).trans ?_⟩
  clear made each
  generalize outcomes.filterMap Outcome.predicate = predicates at parts
  induction parts with
  | nil => rfl
  | cons holds _ ih => simp only [List.all_cons, holds, ih]

theorem join_any (each : List.Forall₂ Means outcomes truths) (nonempty : outcomes ≠ []) :
    (Outcome.join .any outcomes).Means fun assignment => truths.any (· assignment) := by
  have parts := predicates each
  obtain ⟨predicate, made⟩ := Option.ne_none_iff_exists'.1
    (mt Predicate.join?_eq_none.1 (predicates_ne_nil each nonempty) :
      Predicate.join? .any _ ≠ none)
  refine ⟨predicate, made, fun assignment => (Predicate.holds_join?_any made assignment).trans ?_⟩
  clear made each
  generalize outcomes.filterMap Outcome.predicate = predicates at parts
  induction parts with
  | nil => rfl
  | cons holds _ ih => simp only [List.any_cons, holds, ih]

end Outcome.Means

namespace Options

variable (options : Options) (skipResource : Bool)

theorem holds_any_atoms {fragments : List Fragment}
    (made : Predicate.join? .any (fragments.map .atom) = some predicate) (assignment : Assignment) :
    predicate.holds assignment = fragments.any assignment := by
  rw [Predicate.holds_join?_any made, List.any_map]
  simp only [Function.comp_def, Predicate.holds]

theorem holds_all_atoms {fragments : List Fragment}
    (made : Predicate.join? .all (fragments.map .atom) = some predicate) (assignment : Assignment) :
    predicate.holds assignment = fragments.all assignment := by
  rw [Predicate.holds_join?_all made, List.all_map]
  simp only [Function.comp_def, Predicate.holds]

theorem conditionsOn_eq {keys : List Key} {operator : Operator} {value : Value}
    {fragments : List Fragment}
    (ok : keys.mapM (fun key => options.table.condition key operator value) = .ok fragments) :
    options.conditionsOn keys operator value = fragments := by
  induction keys generalizing fragments with
  | nil =>
    cases ok
    rfl
  | cons key keys ih =>
    obtain ⟨first, rest, condition, conditions, rfl⟩ := mapM_cons_ok ok
    rw [conditionsOn, List.filterMap_cons, condition]
    exact congrArg (first :: ·) (ih conditions)

/-- Conditions on several fields are alternatives, or hold together if the operator is negative. -/
theorem holds_conditions {keys : List Key} {operator : Operator} {value : Value}
    (made : (options.conditions keys operator value).predicate = some predicate)
    (assignment : Assignment) :
    predicate.holds assignment =
      if operator.isNegative then (options.conditionsOn keys operator value).all assignment
      else (options.conditionsOn keys operator value).any assignment := by
  unfold conditions at made
  split at made
  · next fragments ok =>
    rw [options.conditionsOn_eq ok]
    cases negative : operator.isNegative with
    | true =>
      rw [negative] at made
      exact holds_all_atoms made assignment
    | false =>
      rw [negative] at made
      exact holds_any_atoms made assignment
  · cases made

theorem holds_comparison {ref : KeyRef} {test : Test}
    (made : (options.comparison skipResource ref test).predicate = some predicate)
    (assignment : Assignment) :
    predicate.holds assignment =
      options.atomHolds skipResource assignment (.comparison ref test) := by
  unfold comparison at made
  dsimp only at made
  rw [← fields] at made
  rw [atomHolds, conditionsOf, Atom.isNegative]
  split at made
  · cases made
  · cases operand : operandOf options.bindings test with
    | dropped | emptyVariable name =>
      rw [operand] at made
      cases made
    | value value =>
      rw [operand] at made
      exact options.holds_conditions made assignment

theorem holds_call {function : Filter.Function} {parameters : List Parameter}
    (made : (options.call function parameters).predicate = some predicate)
    (assignment : Assignment) :
    predicate.holds assignment =
      options.atomHolds skipResource assignment (.call function parameters) := by
  change _ = (options.callConditions function parameters).any assignment
  unfold call at made
  split at made
  · cases made
  · split at made
    · cases function <;> exact holds_any_atoms made assignment
    · cases made
    · cases made

theorem holds_search (made : (options.search text).predicate = some predicate)
    (assignment : Assignment) :
    predicate.holds assignment = (options.searchConditions text).any assignment := by
  unfold search at made
  split at made
  · cases made
  · split at made
    · cases made
    · next key column =>
      split at made
      · next fragment condition =>
        cases made
        simp [searchConditions, conditionsOn, column, condition, Except.toOption, Predicate.holds]
      · cases made

/-- The predicate of an atom says what the atom asks for. -/
theorem holds_atom {atom : Atom}
    (made : (options.atom skipResource atom).predicate = some predicate) (assignment : Assignment) :
    predicate.holds assignment = options.atomHolds skipResource assignment atom := by
  cases atom with
  | comparison ref test => exact options.holds_comparison skipResource made assignment
  | call function parameters => exact options.holds_call skipResource made assignment
  | quotedText raw => exact options.holds_search made assignment
  | freeText text => exact options.holds_search made assignment
  | bareKey ref => exact options.holds_search made assignment
  | bareValue literal => exact options.holds_search made assignment

/-- No part of a filter is dropped. -/
def Keeps (atoms : List Atom) : Prop :=
  ∀ atom ∈ atoms, (options.atom skipResource atom).predicate.isSome = true

instance (atoms : List Atom) : Decidable (options.Keeps skipResource atoms) :=
  inferInstanceAs (Decidable (∀ atom ∈ atoms, _))

/-- What the parts of an expression say, one after the other. -/
def truths : Phrase → List (Assignment → Bool)
  | .term part => [fun assignment => options.termHolds skipResource assignment part]
  | .terms parts =>
    parts.map fun part assignment => options.termHolds skipResource assignment part
  | .branches parts =>
    parts.map fun part assignment => options.termsHold skipResource assignment part

/-- The parts of an expression of which nothing is dropped are kept, and mean what they say. -/
theorem outcomes_mean {phrase : Phrase} {words : List Filter.Word} (spell : Spells phrase words)
    (kept : options.Keeps skipResource phrase.atoms) :
    List.Forall₂ Outcome.Means (options.outcomes skipResource phrase)
        (options.truths skipResource phrase) ∧
      options.outcomes skipResource phrase ≠ [] := by
  induction spell with
  | @atom negated atom proper =>
    obtain ⟨predicate, made⟩ := Option.isSome_iff_exists.1
      (kept atom (by simp [Phrase.atoms, Term.atoms]))
    have means : (options.atom skipResource atom).Means fun assignment =>
        options.atomHolds skipResource assignment atom :=
      ⟨predicate, made, options.holds_atom skipResource made⟩
    simp only [outcomes, truths, Options.term, termHolds]
    exact ⟨.cons (means.negateIf negated) .nil, List.cons_ne_nil _ _⟩
  | @group negated branches words _ ih =>
    obtain ⟨each, nonempty⟩ := ih (by simpa [Phrase.atoms, Term.atoms] using kept)
    have inner := Outcome.Means.join_any each nonempty
    simp only [truths, List.any_map, Function.comp_def, ← branchesHold_eq_any] at inner
    simp only [outcomes, truths, Options.term, termHolds]
    exact ⟨.cons (inner.group.negateIf negated) .nil, List.cons_ne_nil _ _⟩
  | @lone term words _ ih =>
    have first := ih (by simpa [Phrase.atoms, Filter.termsAtoms] using kept)
    simpa [outcomes, Options.terms, truths] using first
  | @joined term terms first rest _ _ ihFirst ihRest
  | @adjacent term terms first rest _ _ ihFirst ihRest =>
    obtain ⟨keptFirst, keptRest⟩ := List.forall_mem_append.1
      (by simpa only [Phrase.atoms, Filter.termsAtoms, Keeps] using kept)
    obtain ⟨means, -⟩ := ihFirst keptFirst
    obtain ⟨each, -⟩ := ihRest keptRest
    simp only [outcomes, Options.terms, truths, List.map_cons]
    exact ⟨.cons (List.forall₂_cons.1 means).1 each, List.cons_ne_nil _ _⟩
  | @only terms words _ ih =>
    obtain ⟨each, nonempty⟩ := ih (by simpa [Phrase.atoms, Filter.branchesAtoms] using kept)
    have joined := Outcome.Means.join_all each nonempty
    simp only [truths, List.all_map, Function.comp_def, ← termsHold_eq_all] at joined
    simp only [outcomes, Options.branches, truths, List.map_cons, List.map_nil]
    exact ⟨.cons joined .nil, List.cons_ne_nil _ _⟩
  | @either terms branches first rest _ _ ihFirst ihRest =>
    obtain ⟨keptFirst, keptRest⟩ := List.forall_mem_append.1
      (by simpa only [Phrase.atoms, Filter.branchesAtoms, Keeps] using kept)
    obtain ⟨each, nonempty⟩ := ihFirst keptFirst
    have joined := Outcome.Means.join_all each nonempty
    simp only [truths, List.all_map, Function.comp_def, ← termsHold_eq_all] at joined
    obtain ⟨others, -⟩ := ihRest keptRest
    simp only [outcomes, Options.branches, truths, List.map_cons]
    exact ⟨.cons joined others, List.cons_ne_nil _ _⟩

/-- The clause of a filter that is kept whole is true exactly if the filter is. -/
theorem truth_eq_queryHolds (accepted : (Filter.read text).errors = [])
    (kept : options.Keeps (options.skips text) (Filter.read text).query.atoms)
    (assignment : Assignment) :
    options.truth text assignment =
      options.queryHolds (options.skips text) assignment (Filter.read text).query := by
  obtain ⟨words, spelled, -⟩ := Filter.parse_spelled (Filter.parse_eq_ok.2 ⟨accepted, rfl⟩)
  unfold truth outcome queryHolds query
  cases parsed : (Filter.read text).query with
  | none => rfl
  | some branches =>
    rw [parsed] at spelled kept
    obtain ⟨each, nonempty⟩ := options.outcomes_mean (options.skips text) spelled kept
    obtain ⟨predicate, made, holds⟩ := Outcome.Means.join_any each nonempty
    simp only [truths, List.any_map, Function.comp_def, ← branchesHold_eq_any] at holds
    simp only [Option.elim_some]
    rw [outcomes] at made
    rw [made, Option.elim_some, holds]

end Options

/-- The clause of a filter of which nothing is dropped is made of words; read as a formula, `NOT`
before `AND` before `OR`, they have the value of the filter, whatever conditions hold. -/
theorem clause_means_filter {options : Options} {text : String} {clause : Clause}
    (ok : compile options text = .ok clause)
    (kept : options.Keeps (options.skips text) (Filter.read text).query.atoms) :
    Word.Spell (options.words text) clause.fragment ∧
    ∃ formula, Formula.read (options.words text) = some formula ∧
      ∀ assignment, formula.eval assignment =
        options.queryHolds (options.skips text) assignment (Filter.read text).query := by
  obtain ⟨accepted, -, -⟩ := compile_eq_ok.1 ok
  obtain ⟨formula, read, evals⟩ := options.read_words text
  refine ⟨spell_clause ok, formula, read, fun assignment => ?_⟩
  rw [evals, options.truth_eq_queryHolds accepted kept]

/-- A disjunction of a conjunction under a negation, and a field stored in two places, once with a
negative operator and once with a positive one. -/
theorem clause_means_filter_nested :
    let options : Options :=
      { catalog := .ofKeys
          [{ name := "d", context := .attributes, type := .number },
            { name := "d", context := .attributes, type := .string },
            { name := "a", context := .attributes, type := .number }] }
    let text := "NOT (d != 'x' OR a = 1 a < 2) AND (d = 'y' OR has(body.tags, 'z'))"
    let sql :=
      "(NOT ((((toString(attributes_number['d']) <> ? AND attributes_string['d'] <> ?) OR " ++
      "((attributes_number['a'] = ? AND mapContains(attributes_number, 'a') = ?) AND " ++
      "(attributes_number['a'] < ? AND mapContains(attributes_number, 'a') = ?))))) AND " ++
      "((((toString(attributes_number['d']) = ? AND mapContains(attributes_number, 'd') = ?) OR " ++
      "(attributes_string['d'] = ? AND mapContains(attributes_string, 'd') = ?)) OR " ++
      "has(JSON_VALUE(body, '$.tags'), ?))))"
    options.Keeps (options.skips text) (Filter.read text).query.atoms ∧
    ∃ clause, compile options text = .ok clause ∧ clause.sql = sql ∧
      Word.Spell (options.words text) clause.fragment ∧
      ∃ formula, Formula.read (options.words text) = some formula ∧
        ∀ assignment, formula.eval assignment =
          options.queryHolds (options.skips text) assignment (Filter.read text).query := by
  intro options text sql
  have kept : options.Keeps (options.skips text) (Filter.read text).query.atoms := by
    decide +kernel
  have shown : (compile options text).toOption.map Clause.sql = some sql := by decide +kernel
  cases ok : compile options text with
  | error failure =>
    rw [ok] at shown
    cases shown
  | ok clause =>
    rw [ok] at shown
    exact ⟨kept, clause, rfl, Option.some.inj shown, clause_means_filter ok kept⟩

end TelemetryQuery.Where
