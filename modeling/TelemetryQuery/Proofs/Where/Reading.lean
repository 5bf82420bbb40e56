import TelemetryQuery.Proofs.Sql.Formula
import TelemetryQuery.Where.Clause
/- The clause of a filter read as a formula over its conditions. -/
namespace TelemetryQuery.Where

open TelemetryQuery.Field (Key)
open TelemetryQuery.Filter (KeyRef Test Atom Term Parameter)
open TelemetryQuery.Sql (Fragment Word Formula Assignment Stands)

variable {parts : List Predicate} {predicate : Predicate}

namespace Predicate

mutual

/-- The words of a predicate; its conditions are words as they are. -/
def words : Predicate → List Word
  | .atom fragment => [.condition fragment]
  | .all parts => Word.connect .and (wordsEach parts)
  | .any parts => Word.connect .or (wordsEach parts)
  | .group inner => .opening :: inner.words ++ [.closing]
  | .not inner => .not :: .opening :: inner.words ++ [.closing]

def wordsEach : List Predicate → List (List Word)
  | [] => []
  | predicate :: rest => predicate.words :: wordsEach rest

end

mutual

def holds (assignment : Assignment) : Predicate → Bool
  | .atom fragment => assignment fragment
  | .all parts => holdsAll assignment parts
  | .any parts => holdsAny assignment parts
  | .group inner => inner.holds assignment
  | .not inner => !inner.holds assignment

def holdsAll (assignment : Assignment) : List Predicate → Bool
  | [] => true
  | predicate :: rest => predicate.holds assignment && holdsAll assignment rest

def holdsAny (assignment : Assignment) : List Predicate → Bool
  | [] => false
  | predicate :: rest => predicate.holds assignment || holdsAny assignment rest

end

theorem wordsEach_eq_map (parts : List Predicate) : wordsEach parts = parts.map words := by
  induction parts with
  | nil => rw [wordsEach, List.map_nil]
  | cons part parts ih => rw [wordsEach, ih, List.map_cons]

theorem holdsAll_eq_all (assignment : Assignment) (parts : List Predicate) :
    holdsAll assignment parts = parts.all (holds assignment) := by
  induction parts with
  | nil => rw [holdsAll, List.all_nil]
  | cons part parts ih => rw [holdsAll, ih, List.all_cons]

theorem holdsAny_eq_any (assignment : Assignment) (parts : List Predicate) :
    holdsAny assignment parts = parts.any (holds assignment) := by
  induction parts with
  | nil => rw [holdsAny, List.any_nil]
  | cons part parts ih => rw [holdsAny, ih, List.any_cons]

mutual

/-- The words of a predicate make its SQL. -/
theorem spell_words : ∀ predicate : Predicate, Word.Spell predicate.words predicate.fragment
  | .atom condition => by
    rw [words, fragment]
    exact .condition condition
  | .all parts => by
    rw [words, fragment]
    exact .connect rfl (spell_wordsEach parts)
  | .any parts => by
    rw [words, fragment]
    exact .connect rfl (spell_wordsEach parts)
  | .group inner => by
    rw [words, fragment]
    exact (spell_words inner).enclose
  | .not inner => by
    rw [words, fragment]
    exact (spell_words inner).negate

theorem spell_wordsEach : ∀ parts : List Predicate,
    List.Forall₂ Word.Spell (wordsEach parts) (fragments parts)
  | [] => by
    rw [wordsEach, fragments]
    exact .nil
  | part :: parts => by
    rw [wordsEach, fragments]
    exact .cons (spell_words part) (spell_wordsEach parts)

end

/-- A predicate in which every joining has parts. -/
inductive Joined : Predicate → Prop
  | atom (fragment : Fragment) : Joined (.atom fragment)
  | all {parts : List Predicate} : parts ≠ [] → (∀ part ∈ parts, Joined part) →
      Joined (.all parts)
  | any {parts : List Predicate} : parts ≠ [] → (∀ part ∈ parts, Joined part) →
      Joined (.any parts)
  | group {inner : Predicate} : Joined inner → Joined (.group inner)
  | not {inner : Predicate} : Joined inner → Joined (.not inner)

theorem stands_each
    (each : ∀ part ∈ parts, Stands part.words fun assignment => part.holds assignment) :
    List.Forall₂ Stands (wordsEach parts)
      (parts.map fun part assignment => part.holds assignment) := by
  induction parts with
  | nil =>
    rw [wordsEach]
    exact .nil
  | cons part parts ih =>
    obtain ⟨first, rest⟩ := List.forall_mem_cons.1 each
    rw [wordsEach]
    exact .cons first (ih rest)

/-- A predicate is read as one part that says whether it holds. -/
theorem Joined.stands (joined : predicate.Joined) :
    Stands predicate.words fun assignment => predicate.holds assignment := by
  induction joined with
  | atom fragment =>
    simp only [words, holds]
    exact .condition fragment
  | @all parts nonempty _ ih =>
    have conjunction := Stands.connect_and (stands_each ih) (by simpa [wordsEach_eq_map])
    simpa only [words, holds, holdsAll_eq_all, List.all_map, Function.comp_def] using conjunction
  | @any parts nonempty _ ih =>
    have disjunction := Stands.connect_or (stands_each ih) (by simpa [wordsEach_eq_map])
    simpa only [words, holds, holdsAny_eq_any, List.any_map, Function.comp_def] using disjunction
  | group _ ih =>
    simp only [words, holds]
    exact ih.enclose
  | not _ ih =>
    simp only [words, holds]
    exact ih.enclose.negate

theorem holds_join?_all (made : join? .all parts = some predicate) (assignment : Assignment) :
    predicate.holds assignment = parts.all (holds assignment) := by
  match parts with
  | [part] =>
    cases made
    simp
  | first :: second :: rest =>
    cases made
    rw [holds, holdsAll_eq_all]

theorem holds_join?_any (made : join? .any parts = some predicate) (assignment : Assignment) :
    predicate.holds assignment = parts.any (holds assignment) := by
  match parts with
  | [part] =>
    cases made
    simp
  | first :: second :: rest =>
    cases made
    rw [holds, holdsAny_eq_any]

theorem join?_eq_none {make : List Predicate → Predicate} :
    join? make parts = none ↔ parts = [] := by
  fun_cases join? make parts <;> simp_all

theorem joined_join? {make : List Predicate → Predicate}
    (joins : ∀ {parts}, parts ≠ [] → (∀ part ∈ parts, part.Joined) → (make parts).Joined)
    (each : ∀ part ∈ parts, part.Joined) : ∀ predicate ∈ join? make parts, predicate.Joined := by
  intro predicate made
  match parts with
  | [_] =>
    cases made
    exact each _ (List.mem_singleton.2 rfl)
  | first :: second :: rest =>
    cases made
    exact joins (by simp) each

theorem joined_conditions {make : List Predicate → Predicate}
    (joins : ∀ {parts}, parts ≠ [] → (∀ part ∈ parts, part.Joined) → (make parts).Joined)
    (fragments : List Fragment) :
    ∀ predicate ∈ join? make (fragments.map .atom), predicate.Joined := by
  apply joined_join? joins
  intro part mem
  obtain ⟨fragment, _, rfl⟩ := List.mem_map.1 mem
  exact .atom fragment

end Predicate

/-- An outcome whose predicate, if it has one, can be read. -/
def Outcome.Readable (outcome : Outcome) : Prop :=
  ∀ predicate ∈ outcome.predicate, predicate.Joined

namespace Outcome

theorem readable_none (reports : List Diagnostic) : Readable ⟨none, reports⟩ := by
  simp [Readable]

theorem Readable.map {outcome : Outcome} {make : Predicate → Predicate}
    (readable : outcome.Readable) (keeps : ∀ {inner}, inner.Joined → (make inner).Joined) :
    (outcome.map make).Readable := by
  intro predicate mem
  obtain ⟨inner, within, rfl⟩ := Option.map_eq_some_iff.1 mem
  exact keeps (readable inner within)

theorem Readable.negateIf {outcome : Outcome} (readable : outcome.Readable) (negated : Bool) :
    (outcome.negateIf negated).Readable := by
  cases negated with
  | false => exact readable
  | true => exact readable.map .not

theorem readable_join {make : List Predicate → Predicate}
    (joins : ∀ {parts}, parts ≠ [] → (∀ part ∈ parts, part.Joined) → (make parts).Joined)
    {outcomes : List Outcome} (each : ∀ outcome ∈ outcomes, outcome.Readable) :
    (Outcome.join make outcomes).Readable := by
  apply Predicate.joined_join? joins
  intro predicate mem
  obtain ⟨outcome, among, made⟩ := List.mem_filterMap.1 mem
  exact each outcome among predicate made

end Outcome

namespace Options

variable (options : Options)

theorem conditions_readable (keys : List Key) (operator : Operator) (value : Value) :
    (options.conditions keys operator value).Readable := by
  unfold conditions
  split
  · cases operator.isNegative with
    | true => exact Predicate.joined_conditions .all _
    | false => exact Predicate.joined_conditions .any _
  · exact Outcome.readable_none _

theorem comparison_readable (skipResource : Bool) (ref : KeyRef) (test : Test) :
    (options.comparison skipResource ref test).Readable := by
  unfold comparison
  dsimp only
  generalize (if skipResource = true then _ else _) = keys
  split
  · exact Outcome.readable_none _
  · cases operandOf options.bindings test with
    | dropped => exact Outcome.readable_none _
    | emptyVariable name => exact Outcome.readable_none _
    | value value => exact options.conditions_readable _ _ value

theorem call_readable (function : Filter.Function) (parameters : List Parameter) :
    (options.call function parameters).Readable := by
  unfold call
  split
  · exact Outcome.readable_none _
  · split
    · exact Predicate.joined_conditions .any _
    · exact Outcome.readable_none _
    · exact Outcome.readable_none _

theorem search_readable (text : String) : (options.search text).Readable := by
  unfold search
  split
  · exact Outcome.readable_none _
  · split
    · exact Outcome.readable_none _
    · split
      · rintro predicate ⟨⟩
        exact .atom _
      · exact Outcome.readable_none _

theorem atom_readable (skipResource : Bool) (atom : Atom) :
    (options.atom skipResource atom).Readable := by
  cases atom with
  | comparison ref test => exact options.comparison_readable skipResource ref test
  | call function parameters => exact options.call_readable function parameters
  | quotedText raw => exact options.search_readable _
  | freeText text => exact options.search_readable _
  | bareKey ref => exact options.search_readable _
  | bareValue literal => exact options.search_readable _

mutual

theorem term_readable (skipResource : Bool) : ∀ term : Term,
    (options.term skipResource term).Readable
  | .atom negated atom => by
    rw [term]
    exact (options.atom_readable skipResource atom).negateIf negated
  | .group negated branches => by
    rw [term]
    have joined := Outcome.readable_join .any (branches_readable skipResource branches)
    exact (joined.map .group).negateIf negated

theorem branches_readable (skipResource : Bool) : ∀ branches : List (List Term),
    ∀ outcome ∈ options.branches skipResource branches, outcome.Readable
  | [] => by simp [branches]
  | terms :: rest => by
    rw [branches]
    have joined := Outcome.readable_join .all (terms_readable skipResource terms)
    exact List.forall_mem_cons.2 ⟨joined, branches_readable skipResource rest⟩

theorem terms_readable (skipResource : Bool) : ∀ terms : List Term,
    ∀ outcome ∈ options.terms skipResource terms, outcome.Readable
  | [] => by simp [terms]
  | term :: rest => by
    rw [terms]
    exact List.forall_mem_cons.2
      ⟨term_readable skipResource term, terms_readable skipResource rest⟩

end

theorem query_readable (skipResource : Bool) (query : Filter.Query) :
    (options.query skipResource query).Readable := by
  cases query with
  | none => exact Outcome.readable_none _
  | some branches =>
    exact Outcome.readable_join .any (options.branches_readable skipResource branches)

/-- Whether conditions on resources are left out of a filter: only if there is no `OR` in it. -/
def skips (options : Options) (text : String) : Bool :=
  options.skipResource && !(Filter.read text).hasOr

/-- What a filter compiles to, its reports included. -/
def outcome (options : Options) (text : String) : Outcome :=
  options.query (options.skips text) (Filter.read text).query

/-- The words of the clause of a filter. -/
def words (options : Options) (text : String) : List Word :=
  (options.outcome text).predicate.elim [.always] Predicate.words

/-- Whether the clause of a filter is true; a filter that asks for nothing is. -/
def truth (options : Options) (text : String) (assignment : Assignment) : Bool :=
  (options.outcome text).predicate.elim true (Predicate.holds assignment)

/-- The words of a clause are read as a formula that says whether the clause is true. -/
theorem read_words (text : String) :
    ∃ formula, Formula.read (options.words text) = some formula ∧
      ∀ assignment, formula.eval assignment = options.truth text assignment := by
  have readable := options.query_readable (options.skips text) (Filter.read text).query
  unfold words truth outcome
  cases made : (options.query (options.skips text) (Filter.read text).query).predicate with
  | none => exact Stands.always.read
  | some predicate => exact (readable predicate made).stands.read

end Options

/-- A text compiles exactly if it is read and compiled without errors. -/
theorem compile_eq_ok {options : Options} {text : String} {clause : Clause} :
    compile options text = .ok clause ↔
      (Filter.read text).errors = [] ∧
      (∀ report ∈ (options.outcome text).reports, report.problem.isWarning = true) ∧
      clause = ⟨(options.outcome text).predicate.elim (.ofText "true") Predicate.fragment,
        distinctWarnings [] ((options.outcome text).reports.filter (·.problem.isWarning))⟩ := by
  unfold compile
  dsimp only
  rw [← Options.skips, ← Options.outcome]
  by_cases faulty : (Filter.read text).errors = []
  · by_cases clean : ∀ report ∈ (options.outcome text).reports, report.problem.isWarning = true
    · have none : (options.outcome text).reports.filter (!·.problem.isWarning) = [] := by
        simpa using clean
      simp only [faulty, none, List.isEmpty_nil, Bool.not_true, Bool.false_eq_true, if_false,
        Except.ok.injEq, true_and]
      exact ⟨fun same => ⟨clean, same.symm⟩, fun same => same.2.symm⟩
    · have some : (options.outcome text).reports.filter (!·.problem.isWarning) ≠ [] := by
        simpa using clean
      simp [faulty, some, clean]
  · simp [faulty]

/-- The words of a compiled filter make its clause, with the values bound in it. -/
theorem spell_clause {options : Options} {text : String} {clause : Clause}
    (ok : compile options text = .ok clause) :
    Word.Spell (options.words text) clause.fragment := by
  obtain ⟨-, -, rfl⟩ := compile_eq_ok.1 ok
  rw [Options.words]
  cases (options.outcome text).predicate with
  | none => exact .refl [.always]
  | some predicate => exact predicate.spell_words

end TelemetryQuery.Where
