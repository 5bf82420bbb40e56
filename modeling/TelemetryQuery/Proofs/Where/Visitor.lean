import TelemetryQuery.Proofs.Filter.Word
import TelemetryQuery.Proofs.Where.Binding
import TelemetryQuery.Proofs.Where.Reading
/- Filters compiled by a visitor, whose leaves share the values bound so far, the errors, the
warnings and the names that were warned about. -/
namespace TelemetryQuery.Where

open TelemetryQuery.Filter (Atom Term Query)
open TelemetryQuery.Sql (Script Builder)

/-- What a visitor has gathered. -/
structure Visit where
  bound : List Value := []
  errors : List Diagnostic := []
  warnings : List Diagnostic := []
  /-- The ambiguous names that were warned about. -/
  warned : List String := []

namespace Visit

/-- Takes note of a report. Of the warnings about an ambiguous name only the first counts. -/
def report (visit : Visit) (report : Diagnostic) : Visit :=
  match report.problem with
  | .ambiguousKey name _ =>
    if visit.warned.contains name then visit
    else { visit with warnings := visit.warnings ++ [report], warned := name :: visit.warned }
  | .withoutWildcards _ => { visit with warnings := visit.warnings ++ [report] }
  | _ => { visit with errors := visit.errors ++ [report] }

/-- Takes note of reports, when the values bound so far have become others. -/
def heed (visit : Visit) (reports : List Diagnostic) (bound : List Value) : Visit :=
  reports.foldl report { visit with bound }

theorem report_bound (visit : Visit) (diagnostic : Diagnostic) (bound : List Value) :
    { visit with bound }.report diagnostic = { visit.report diagnostic with bound } := by
  unfold report
  split
  · dsimp only
    split <;> rfl
  · rfl
  · rfl

theorem heed_cons (visit : Visit) (diagnostic : Diagnostic) (reports : List Diagnostic)
    (bound : List Value) :
    visit.heed (diagnostic :: reports) bound = (visit.report diagnostic).heed reports bound := by
  rw [heed, List.foldl_cons, report_bound, ← heed]

theorem heed_bound (visit : Visit) (reports : List Diagnostic) (before after : List Value) :
    { visit.heed reports before with bound := after } = visit.heed reports after := by
  induction reports generalizing visit with
  | nil => rfl
  | cons diagnostic reports ih =>
    rw [heed_cons, heed_cons]
    exact ih (visit.report diagnostic)

@[simp]
theorem bound_heed (visit : Visit) (reports : List Diagnostic) (bound : List Value) :
    (visit.heed reports bound).bound = bound := by
  rw [← visit.heed_bound reports [] bound]

theorem heed_heed (visit : Visit) (first second : List Diagnostic) (before after : List Value) :
    (visit.heed first before).heed second after = visit.heed (first ++ second) after := by
  rw [heed, heed_bound, heed, heed, List.foldl_append]

/-- Errors are kept in order, whatever else was gathered. -/
theorem errors_heed (visit : Visit) (reports : List Diagnostic) (bound : List Value) :
    (visit.heed reports bound).errors =
      visit.errors ++ reports.filter (!·.problem.isWarning) := by
  induction reports generalizing visit with
  | nil => exact (List.append_nil visit.errors).symm
  | cons diagnostic reports ih =>
    have step : (visit.report diagnostic).errors =
        visit.errors ++ [diagnostic].filter (!·.problem.isWarning) := by
      unfold report
      split
      · next same => split <;> simp [same, Problem.isWarning]
      · next same => simp [same, Problem.isWarning]
      · next ambiguous wildcards =>
        have error : diagnostic.problem.isWarning = false := by
          unfold Problem.isWarning
          split <;> simp_all
        simp [error]
    rw [heed_cons, ih, step, List.append_assoc, ← List.filter_append, List.singleton_append]

/-- Warnings are kept in order, but those about names that were warned about. -/
theorem warnings_heed (visit : Visit) (reports : List Diagnostic) (bound : List Value) :
    (visit.heed reports bound).warnings =
      visit.warnings ++ distinctWarnings visit.warned (reports.filter (·.problem.isWarning)) := by
  induction reports generalizing visit with
  | nil => exact (List.append_nil visit.warnings).symm
  | cons diagnostic reports ih =>
    rw [heed_cons, ih]
    unfold report
    split
    · next name _ same =>
      have warns : diagnostic.problem.isWarning = true := by rw [same]; rfl
      rw [List.filter_cons, if_pos warns, distinctWarnings, same]
      dsimp only
      split
      · rfl
      · rw [List.append_assoc]
        rfl
    · next same =>
      have warns : diagnostic.problem.isWarning = true := by rw [same]; rfl
      rw [List.filter_cons, if_pos warns, distinctWarnings, same, List.append_assoc]
      rfl
    · next ambiguous wildcards =>
      have error : diagnostic.problem.isWarning = false := by
        unfold Problem.isWarning
        split <;> simp_all
      simp [error]

end Visit

/-- Steps that share what has been gathered. -/
abbrev Visitor :=
  StateM Visit

namespace Visitor

variable {α β : Type}

/-- What steps give, and what is gathered after them. -/
def result (run : Visitor α) (visit : Visit) : α × Visit :=
  run.run visit

@[simp] theorem result_pure (a : α) (visit : Visit) : result (pure a) visit = (a, visit) :=
  rfl

@[simp] theorem result_bind (run : Visitor α) (next : α → Visitor β) (visit : Visit) :
    result (run >>= next) visit = (next (run.result visit).1).result (run.result visit).2 :=
  rfl

end Visitor

/-- Puts a script that is not empty into brackets, after an opening text. -/
def bracket (opening : String) (script : Script) : Script :=
  if script.isEmpty then script else .ofText opening ++ script ++ .ofText ")"

def bracketIf (negated : Bool) (script : Script) : Script :=
  if negated then bracket "NOT (" script else script

/-- Joins the scripts that are not empty by a connective. -/
def connectVisible (connective : String) (scripts : List Script) : Script :=
  .connect connective (scripts.filter (!·.isEmpty))

namespace Options

/-- Visits a leaf: its values are bound after the others, and its reports follow the others. -/
def visitAtom (options : Options) (skipResource : Bool) (atom : Atom) : Visitor Script :=
  modifyGet fun visit =>
    let (written, bound) := (options.bindAtom skipResource atom).result visit.bound
    (written.script, visit.heed written.reports bound)

mutual

/-- Visits the leaves of a term, one after the other. -/
def visitTerm (options : Options) (skipResource : Bool) : Term → Visitor Script
  | .atom negated atom => do
    return bracketIf negated (← options.visitAtom skipResource atom)
  | .group negated branches => do
    let scripts ← options.visitBranches skipResource branches
    return bracketIf negated (bracket "(" (connectVisible "OR" scripts))

def visitBranches (options : Options) (skipResource : Bool) :
    List (List Term) → Visitor (List Script)
  | [] => return []
  | terms :: rest => do
    let scripts ← options.visitTerms skipResource terms
    return connectVisible "AND" scripts :: (← options.visitBranches skipResource rest)

def visitTerms (options : Options) (skipResource : Bool) : List Term → Visitor (List Script)
  | [] => return []
  | term :: rest => do
    let script ← options.visitTerm skipResource term
    return script :: (← options.visitTerms skipResource rest)

end

def visitQuery (options : Options) (skipResource : Bool) : Query → Visitor Script
  | none => return []
  | some branches => do
    return connectVisible "OR" (← options.visitBranches skipResource branches)

/-- Compiles a filter that has been read, with a visitor that has gathered nothing yet. -/
def compileVisited (options : Options) (skipResource : Bool) (query : Query) :
    Except (List Diagnostic) BoundClause :=
  let (script, visit) := (options.visitQuery skipResource query).result {}
  if !visit.errors.isEmpty then .error visit.errors
  else
    .ok
      { script := if script.isEmpty then .ofText "true" else script
        arguments := visit.bound
        warnings := visit.warnings }

end Options

theorem script_enclose (opening : String) (written : Written) :
    (written.enclose opening).script = bracket opening written.script := by
  unfold Written.enclose bracket
  split <;> rfl

theorem script_negateIf (negated : Bool) (written : Written) :
    (written.negateIf negated).script = bracketIf negated written.script := by
  cases negated with
  | false => rfl
  | true => exact script_enclose _ _

theorem reports_negateIf (negated : Bool) (written : Written) :
    (written.negateIf negated).reports = written.reports := by
  cases negated with
  | false => rfl
  | true => exact written.reports_enclose _

/-- What a visitor makes of what a builder has written and bound. -/
def Visit.enter (visit : Visit) (built : Written × List Value) : Script × Visit :=
  (built.1.script, visit.heed built.1.reports built.2)

def Visit.enterEach (visit : Visit) (built : List Written × List Value) : List Script × Visit :=
  (built.1.map Written.script, visit.heed (built.1.flatMap Written.reports) built.2)

namespace Options

variable (options : Options)

theorem result_visitAtom (skipResource : Bool) (atom : Atom) (visit : Visit) :
    (options.visitAtom skipResource atom).result visit =
      visit.enter ((options.bindAtom skipResource atom).result visit.bound) :=
  rfl

mutual

/-- A visitor writes and binds what a builder does, and takes note of its reports. -/
theorem result_visitTerm (skipResource : Bool) : ∀ (term : Term) (visit : Visit),
    (options.visitTerm skipResource term).result visit =
      visit.enter ((options.bindTerm skipResource term).result visit.bound)
  | .atom negated atom, visit => by
    rw [visitTerm, bindTerm, Visitor.result_bind, Visitor.result_pure, result_visitAtom,
      Builder.result_map, Visit.enter, Visit.enter, script_negateIf, reports_negateIf]
  | .group negated branches, visit => by
    rw [visitTerm, bindTerm, Visitor.result_bind, Visitor.result_pure, Builder.result_bind,
      Builder.result_pure, result_visitBranches skipResource branches visit, Visit.enter,
      script_negateIf, reports_negateIf, script_enclose, Written.reports_enclose]
    rfl

theorem result_visitBranches (skipResource : Bool) :
    ∀ (branches : List (List Term)) (visit : Visit),
      (options.visitBranches skipResource branches).result visit =
        visit.enterEach ((options.bindBranches skipResource branches).result visit.bound)
  | [], visit => by
    rw [visitBranches, bindBranches]
    rfl
  | terms :: rest, visit => by
    rw [visitBranches, bindBranches]
    simp only [Visitor.result_bind, Visitor.result_pure, Builder.result_bind, Builder.result_pure,
      result_visitTerms skipResource terms visit, result_visitBranches skipResource rest _,
      Visit.enterEach, Visit.bound_heed, Visit.heed_heed]
    rfl

theorem result_visitTerms (skipResource : Bool) : ∀ (terms : List Term) (visit : Visit),
    (options.visitTerms skipResource terms).result visit =
      visit.enterEach ((options.bindTerms skipResource terms).result visit.bound)
  | [], visit => by
    rw [visitTerms, bindTerms]
    rfl
  | term :: rest, visit => by
    rw [visitTerms, bindTerms]
    simp only [Visitor.result_bind, Visitor.result_pure, Builder.result_bind, Builder.result_pure,
      result_visitTerm skipResource term visit, result_visitTerms skipResource rest _,
      Visit.enter, Visit.enterEach, Visit.bound_heed, Visit.heed_heed]
    rfl

end

theorem result_visitQuery (skipResource : Bool) (query : Query) (visit : Visit) :
    (options.visitQuery skipResource query).result visit =
      visit.enter ((options.bindQuery skipResource query).result visit.bound) := by
  cases query with
  | none => rfl
  | some branches =>
    rw [visitQuery, Visitor.result_bind, Visitor.result_pure, result_visitBranches]
    rfl

/-- Compiling a text is visiting the filter that is read from it. -/
theorem compile_visited {text : String} (read : (Filter.read text).errors = []) :
    (compile options text).map Clause.bound =
      (options.compileVisited (options.skips text) (Filter.read text).query).mapError
        Failure.semantic := by
  rw [← compileBound_eq, compileBound, compileVisited, ← skips, result_visitQuery, read]
  dsimp only [Visit.enter]
  rw [if_neg (by simp), Visit.errors_heed, Visit.warnings_heed, Visit.bound_heed]
  dsimp only [List.nil_append]
  split <;> rfl

/-- The errors of a leaf that a visitor sees alone. -/
def alone (skipResource : Bool) (atom : Atom) : List Diagnostic :=
  ((options.visitQuery skipResource (some [[.atom false atom]])).result {}).2.errors

theorem reports_visitAtom (skipResource : Bool) (atom : Atom) (visit : Visit) :
    ((options.visitAtom skipResource atom).result visit).2.errors =
      visit.errors ++ (options.atom skipResource atom).reports.filter (!·.problem.isWarning) := by
  rw [result_visitAtom, Visit.enter, Visit.errors_heed,
    (options.atom_written skipResource atom visit.bound).reports]

theorem alone_eq (skipResource : Bool) (atom : Atom) :
    options.alone skipResource atom =
      (options.atom skipResource atom).reports.filter (!·.problem.isWarning) := by
  rw [alone, visitQuery, visitBranches, visitBranches, visitTerms, visitTerms, visitTerm]
  exact options.reports_visitAtom skipResource atom {}

theorem alone_eq_nil {skipResource : Bool} {atom : Atom} :
    options.alone skipResource atom = [] ↔ (options.atom skipResource atom).Clean := by
  simp [alone_eq, List.filter_eq_nil_iff, Outcome.Clean]

/-- A leaf adds the errors that it has alone, whatever was gathered before. -/
theorem errors_visitAtom (skipResource : Bool) (atom : Atom) (visit : Visit) :
    ((options.visitAtom skipResource atom).result visit).2.errors =
      visit.errors ++ options.alone skipResource atom := by
  rw [alone_eq, reports_visitAtom]

mutual

theorem errors_visitTerm (skipResource : Bool) : ∀ (term : Term) (visit : Visit),
    ((options.visitTerm skipResource term).result visit).2.errors =
      visit.errors ++ term.atoms.flatMap (options.alone skipResource)
  | .atom negated atom, visit => by
    rw [visitTerm, Visitor.result_bind, Visitor.result_pure, errors_visitAtom, Term.atoms,
      List.flatMap_singleton]
  | .group negated branches, visit => by
    rw [visitTerm, Visitor.result_bind, Visitor.result_pure,
      errors_visitBranches skipResource branches visit, Term.atoms]

theorem errors_visitBranches (skipResource : Bool) :
    ∀ (branches : List (List Term)) (visit : Visit),
      ((options.visitBranches skipResource branches).result visit).2.errors =
        visit.errors ++ (Filter.branchesAtoms branches).flatMap (options.alone skipResource)
  | [], visit => by
    rw [visitBranches, Visitor.result_pure, Filter.branchesAtoms, List.flatMap_nil,
      List.append_nil]
  | terms :: rest, visit => by
    rw [visitBranches, Visitor.result_bind, Visitor.result_bind, Visitor.result_pure,
      errors_visitBranches skipResource rest, errors_visitTerms skipResource terms,
      Filter.branchesAtoms, List.flatMap_append, List.append_assoc]

theorem errors_visitTerms (skipResource : Bool) : ∀ (terms : List Term) (visit : Visit),
    ((options.visitTerms skipResource terms).result visit).2.errors =
      visit.errors ++ (Filter.termsAtoms terms).flatMap (options.alone skipResource)
  | [], visit => by
    rw [visitTerms, Visitor.result_pure, Filter.termsAtoms, List.flatMap_nil, List.append_nil]
  | term :: rest, visit => by
    rw [visitTerms, Visitor.result_bind, Visitor.result_bind, Visitor.result_pure,
      errors_visitTerms skipResource rest, errors_visitTerm skipResource term,
      Filter.termsAtoms, List.flatMap_append, List.append_assoc]

end

/-- The errors of a filter are those of its leaves, in their order. -/
theorem errors_visitQuery (skipResource : Bool) (query : Query) :
    ((options.visitQuery skipResource query).result {}).2.errors =
      (Query.atoms query).flatMap (options.alone skipResource) := by
  cases query with
  | none => rfl
  | some branches => exact options.errors_visitBranches skipResource branches {}

theorem compileVisited_cases (skipResource : Bool) (query : Query) :
    let errors := (Query.atoms query).flatMap (options.alone skipResource)
    (errors = [] ∧ ∃ clause, options.compileVisited skipResource query = .ok clause) ∨
      (errors ≠ [] ∧ options.compileVisited skipResource query = .error errors) := by
  rw [compileVisited]
  dsimp only
  rw [options.errors_visitQuery]
  generalize (Query.atoms query).flatMap (options.alone skipResource) = errors
  cases errors with
  | nil => exact .inl ⟨rfl, _, rfl⟩
  | cons error errors => exact .inr ⟨by simp, rfl⟩

theorem compileVisited_clean {skipResource : Bool} {query : Query}
    (clean : (options.query skipResource query).Clean) :
    let fragment := (options.query skipResource query).predicate.elim (.ofText "true")
      Predicate.fragment
    ∃ warnings, options.compileVisited skipResource query =
      .ok ⟨fragment.mark 0, fragment.arguments, warnings⟩ := by
  have writes := options.query_written skipResource query []
  obtain ⟨script, values⟩ := writes.clause clean
  have none : (options.query skipResource query).reports.filter (!·.problem.isWarning) = [] := by
    simpa [Outcome.Clean] using clean
  rw [compileVisited, result_visitQuery]
  dsimp only [Visit.enter]
  rw [Visit.errors_heed, Visit.bound_heed, writes.reports, none, script, values]
  exact ⟨_, rfl⟩

theorem atoms_clean {skipResource : Bool} {query : Query}
    (clean : (options.query skipResource query).Clean) :
    ∀ atom ∈ Query.atoms query, (options.atom skipResource atom).Clean := by
  obtain ⟨warnings, ok⟩ := options.compileVisited_clean clean
  rcases options.compileVisited_cases skipResource query with ⟨none, -⟩ | ⟨-, error⟩
  · exact fun atom among => options.alone_eq_nil.1 (List.flatMap_eq_nil_iff.1 none atom among)
  · rw [ok] at error
    cases error

end Options

/-- The errors of a filter that can be read are those that its leaves have each on its own, in
their order, and it is compiled exactly when no leaf has any. -/
theorem compile_error_of_leaves {options : Options} {text : String}
    (read : (Filter.read text).errors = []) :
    let leaves := Query.atoms (Filter.read text).query
    (∀ failure, compile options text = .error failure →
      failure = .semantic (leaves.flatMap (options.alone (options.skips text)))) ∧
    ((∃ clause, compile options text = .ok clause) ↔
      ∀ leaf ∈ leaves, options.alone (options.skips text) leaf = []) := by
  intro leaves
  have visited := options.compile_visited read
  rcases options.compileVisited_cases (options.skips text) (Filter.read text).query with
    ⟨none, clause, ok⟩ | ⟨some, error⟩
  · rw [ok] at visited
    cases compiled : compile options text with
    | error failure =>
      rw [compiled] at visited
      cases visited
    | ok clause =>
      refine ⟨by simp, iff_of_true ⟨clause, rfl⟩ ?_⟩
      exact List.flatMap_eq_nil_iff.1 none
  · rw [error] at visited
    cases compiled : compile options text with
    | ok clause =>
      rw [compiled] at visited
      cases visited
    | error failure =>
      rw [compiled] at visited
      refine ⟨?_, iff_of_false (by simp) ?_⟩
      · rintro _ ⟨⟩
        exact Except.error.inj visited
      · exact fun clean => some (List.flatMap_eq_nil_iff.2 clean)

/-- Errors at four of six leaves, in a group and under a negation, with a warning about one name at
three of them. -/
theorem compile_error_of_leaves_nested :
    let options : Options :=
      { catalog := .ofKeys
          [{ name := "d", context := .attributes, type := .number },
            { name := "d", context := .attributes, type := .string },
            { name := "service.name", context := .resource, type := .string }] }
    let text := "d = 1 NOT (unknown = 2 OR 'any text') has(d, 1) d LIKE 'x' servce.name IN ['a']"
    let leaves := Query.atoms (Filter.read text).query
    (Filter.read text).errors = [] ∧
      ∃ errors, compile options text = .error (.semantic errors) ∧
        errors = leaves.flatMap (options.alone (options.skips text)) ∧
        errors.map (·.problem.kind) =
          ["unknown_key", "full_text_unsupported", "unsupported_function", "unknown_key"] := by
  intro options text leaves
  have run : (Filter.read text).errors = [] ∧
      (leaves.flatMap (options.alone (options.skips text))).map (·.problem.kind) =
        ["unknown_key", "full_text_unsupported", "unsupported_function", "unknown_key"] := by
    decide +kernel
  obtain ⟨read, kinds⟩ := run
  obtain ⟨semantic, compiles⟩ := @compile_error_of_leaves options text read
  cases compiled : compile options text with
  | ok clause =>
    have clean := compiles.1 ⟨clause, compiled⟩
    rw [List.flatMap_eq_nil_iff.2 clean] at kinds
    cases kinds
  | error failure =>
    obtain rfl := semantic failure compiled
    exact ⟨read, _, rfl, rfl, kinds⟩

end TelemetryQuery.Where
