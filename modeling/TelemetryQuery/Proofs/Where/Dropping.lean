import TelemetryQuery.Proofs.Where.SelectAll
import TelemetryQuery.Proofs.Where.Visitor
/- Filters that leave terms out have the clause of what is left of them. -/
namespace TelemetryQuery.Filter

variable {function : Filter.Function} {ref : KeyRef} {keys : List Key} {test : Test}

mutual

/-- Whether every conjunction and every group in a term has parts. -/
def Term.isFull : Term → Bool
  | .atom _ _ => true
  | .group _ branches => !branches.isEmpty && fullBranches branches

def fullBranches : List (List Term) → Bool
  | [] => true
  | terms :: rest => !terms.isEmpty && fullTerms terms && fullBranches rest

def fullTerms : List Term → Bool
  | [] => true
  | term :: rest => term.isFull && fullTerms rest

end

def Query.isFull (query : Query) : Bool :=
  query.all fun branches => !branches.isEmpty && fullBranches branches

section Prune

variable (drops : Atom → Bool)

mutual

theorem atoms_prune : ∀ term : Term,
    (term.prune drops).elim [] Term.atoms = term.atoms.filter (!drops ·)
  | .atom negated atom => by
    rw [Term.prune, Term.atoms]
    cases dropped : drops atom <;> simp [dropped, Term.atoms]
  | .group negated branches => by
    rw [Term.prune, Term.atoms, ← atoms_pruneBranches branches]
    rcases nonempty?_cases (pruneBranches drops branches) with ⟨none, kept⟩ | ⟨-, kept⟩
    · rw [kept, none]
      rfl
    · rw [kept]
      rfl

theorem atoms_pruneBranches : ∀ branches : List (List Term),
    branchesAtoms (pruneBranches drops branches) = (branchesAtoms branches).filter (!drops ·)
  | [] => rfl
  | terms :: rest => by
    rw [pruneBranches, branchesAtoms, List.filter_append, ← atoms_pruneTerms terms,
      ← atoms_pruneBranches rest]
    rcases nonempty?_cases (pruneTerms drops terms) with ⟨none, kept⟩ | ⟨-, kept⟩
    · rw [kept, none]
      rfl
    · rw [kept]
      rfl

theorem atoms_pruneTerms : ∀ terms : List Term,
    termsAtoms (pruneTerms drops terms) = (termsAtoms terms).filter (!drops ·)
  | [] => rfl
  | term :: rest => by
    rw [pruneTerms, termsAtoms, List.filter_append, ← atoms_prune term, ← atoms_pruneTerms rest]
    cases term.prune drops <;> rfl

end

/-- Pruning takes the dropped atoms out, and no others. -/
theorem Query.atoms_prune (query : Query) :
    Query.atoms (Query.prune drops query) = (Query.atoms query).filter (!drops ·) := by
  cases query with
  | none => rfl
  | some branches =>
    refine Eq.trans ?_ (atoms_pruneBranches drops branches)
    rcases nonempty?_cases (pruneBranches drops branches) with ⟨none, kept⟩ | ⟨-, kept⟩
    · rw [Query.prune, Option.bind_some, kept, none]
      rfl
    · rw [Query.prune, Option.bind_some, kept]
      rfl

mutual

theorem isFull_prune : ∀ term : Term, (term.prune drops).all Term.isFull = true
  | .atom negated atom => by
    rw [Term.prune]
    cases drops atom <;> rfl
  | .group negated branches => by
    have full := fullBranches_prune branches
    rw [Term.prune]
    rcases nonempty?_cases (pruneBranches drops branches) with ⟨-, kept⟩ | ⟨some, kept⟩
    · rw [kept]
      rfl
    · rw [kept]
      simp [Term.isFull, some, full]

theorem fullBranches_prune : ∀ branches : List (List Term),
    fullBranches (pruneBranches drops branches) = true
  | [] => rfl
  | terms :: rest => by
    have first := fullTerms_prune terms
    have others := fullBranches_prune rest
    rw [pruneBranches]
    rcases nonempty?_cases (pruneTerms drops terms) with ⟨-, kept⟩ | ⟨some, kept⟩
    · rw [kept]
      exact others
    · rw [kept]
      simp [fullBranches, some, first, others]

theorem fullTerms_prune : ∀ terms : List Term, fullTerms (pruneTerms drops terms) = true
  | [] => rfl
  | term :: rest => by
    have first := isFull_prune term
    have others := fullTerms_prune rest
    rw [pruneTerms]
    cases kept : term.prune drops with
    | none => exact others
    | some left =>
      rw [kept] at first
      simpa [fullTerms, others] using first

end

theorem Query.isFull_prune (query : Query) : Query.isFull (Query.prune drops query) = true := by
  cases query with
  | none => rfl
  | some branches =>
    have full := fullBranches_prune drops branches
    rcases nonempty?_cases (pruneBranches drops branches) with ⟨-, kept⟩ | ⟨some, kept⟩
    · simp [Query.prune, Query.isFull, kept]
    · simp [Query.prune, Query.isFull, kept, some, full]

end Prune

end TelemetryQuery.Filter

namespace TelemetryQuery.Where

open TelemetryQuery.Field (Key)
open TelemetryQuery.Filter (KeyRef Test Atom Term Parameter Query Variables)

/-- Whether a test is for a list whose one item names a variable that selects everything. -/
def selectsAllIn (table : Variables) : Test → Bool
  | .among _ operands =>
    match operands.values with
    | [literal] => (literal.value.text?.bind (named? table)).any (·.2.selectsAll)
    | _ => false
  | _ => false

namespace Options

/-- Whether conditions on a key are left out because it means no known field. -/
def ignores (options : Options) (ref : KeyRef) : Bool :=
  options.ignoreUnknown && (options.candidates ref).keys.isEmpty

/-- Whether a call that is well formed is left out because its key means no known field. -/
def ignoresCall (options : Options) : List Parameter → Bool
  | .key ref :: _ :: _ => options.ignores ref
  | _ => false

/-- Whether an atom is left out. -/
def drops (options : Options) : Atom → Bool
  | .comparison ref test => options.ignores ref || selectsAllIn options.bindings test
  | .call _ parameters => options.skipCalls || options.ignoresCall parameters
  | .quotedText _ | .freeText _ | .bareKey _ | .bareValue _ => options.skipFullText

/-- The same options, but with nothing asked to be left out. -/
def strict (options : Options) : Options :=
  { options with skipFullText := false, skipCalls := false, ignoreUnknown := false }

end Options

theorem scalarOperand_ne_dropped (table : Variables) (value : Value) :
    scalarOperand table value ≠ .dropped := by
  unfold scalarOperand
  split
  · split <;> simp
  · simp

theorem operandOf_eq_dropped {table : Variables} :
    operandOf table test = .dropped ↔ selectsAllIn table test = true := by
  cases test with
  | relation op value => simp [operandOf, selectsAllIn, scalarOperand_ne_dropped]
  | pattern negated matcher value => simp [operandOf, selectsAllIn, scalarOperand_ne_dropped]
  | between negated low high => simp [operandOf, selectsAllIn]
  | present negated => simp [operandOf, selectsAllIn]
  | among negated operands =>
    rw [operandOf, selectsAllIn]
    rcases operands.values with _ | ⟨literal, _ | ⟨second, rest⟩⟩
    · simp [listOperand]
    · simp only [List.map_cons, List.map_nil, listOperand]
      cases literal.value.text?.bind (named? table) with
      | none => simp
      | some found =>
        dsimp only [Option.any_some]
        split
        · next all => simp [all]
        · next some =>
          refine iff_of_false ?_ some
          split <;> simp
    · simp [listOperand]

namespace Options

variable {options : Options}

theorem candidates_strict (known : (options.candidates ref).keys ≠ []) :
    options.strict.candidates ref = options.candidates ref := by
  revert known
  simp only [candidates, strict]
  rcases agreeing options.catalog (Field.Key.ofText ref.text) with _ | ⟨known, _ | ⟨other, more⟩⟩
  · cases options.catalog.find (Field.Key.ofText ref.text).qualifiedName with
    | nil => exact fun known => absurd rfl known
    | cons => exact fun _ => rfl
  · exact fun _ => rfl
  · exact fun _ => rfl

/-- An unknown key without an error about it is ignored. -/
theorem ignores_of_clean
    (clean : ∀ report ∈ (options.candidates ref).reports, report.problem.isWarning = true)
    (unknown : (options.candidates ref).keys = []) : options.ignores ref = true := by
  rw [ignores, unknown, List.isEmpty_nil, Bool.and_true]
  revert clean unknown
  simp only [candidates]
  rcases agreeing options.catalog (Field.Key.ofText ref.text) with _ | ⟨known, _ | ⟨other, more⟩⟩
  · cases options.catalog.find (Field.Key.ofText ref.text).qualifiedName with
    | nil =>
      intro clean _
      by_contra asked
      dsimp only [unknownKey] at clean
      rw [if_neg asked] at clean
      split at clean
      · cases clean _ (List.mem_singleton_self _)
      · cases clean _ (List.mem_singleton_self _)
    | cons =>
      intro _ unknown
      cases unknown
  · intro _ unknown
    cases unknown
  · intro _ unknown
    dsimp only at unknown
    split at unknown
    · next wins =>
      simp only [resourceWins, Bool.and_eq_true, List.any_eq_true] at wins
      obtain ⟨key, among, resource⟩ := wins.1
      exact absurd resource (List.filter_eq_nil_iff.1 unknown key among)
    · cases unknown

theorem arrayConditions_kept {value : Value}
    (clean : ∀ report ∈ (arrayConditions function value keys).2, report.problem.isWarning = true)
    (known : keys ≠ []) : (arrayConditions function value keys).1 ≠ [] := by
  cases keys with
  | nil => exact absurd rfl known
  | cons key rest =>
    unfold arrayConditions at clean ⊢
    split
    · simp
    · next outside =>
      rw [if_neg outside] at clean
      cases clean _ (List.mem_singleton_self _)

theorem tokenConditions_kept {token : Option Value}
    (clean : ∀ report ∈ (tokenConditions token keys).2, report.problem.isWarning = true)
    (known : keys ≠ []) : (tokenConditions token keys).1 ≠ [] := by
  cases keys with
  | nil => exact absurd rfl known
  | cons key rest =>
    simp only [tokenConditions] at clean ⊢
    generalize (if key.name = "body" then _ else _ : List Diagnostic) = outside at clean ⊢
    split at clean
    · simp
    · cases clean ⟨.noTextParameter .hasToken, none⟩ (by simp)

/-- A call without errors has a condition for a known key. -/
theorem callParts_kept {values : List Value}
    (clean : ∀ report ∈ (callParts function values keys).2, report.problem.isWarning = true)
    (known : keys ≠ []) : (callParts function values keys).1 ≠ [] := by
  cases function with
  | hasToken => exact tokenConditions_kept clean known
  | has | hasAny | hasAll => exact arrayConditions_kept clean known

theorem callParts_nil (function : Filter.Function) (values : List Value) :
    callParts function values [] = ([], []) := by
  cases function <;> rfl

/-- A comparison of which no field is left out because of its context. -/
theorem comparison_eq (ref : KeyRef) (test : Test) :
    options.comparison false ref test =
      if options.ignores ref then ⟨none, (options.candidates ref).reports⟩
      else .after (options.candidates ref).reports
        (options.compared (options.candidates ref).keys test) := by
  rw [ignores, Bool.and_comm]
  rfl

theorem comparison_dropped (dropped : options.drops (.comparison ref test) = true) :
    (options.comparison false ref test).predicate = none := by
  rw [comparison_eq]
  split
  · rfl
  · next asked =>
    have all : selectsAllIn options.bindings test = true := by simpa [drops, asked] using dropped
    rw [compared, operandOf_eq_dropped.2 all]
    rfl

theorem call_dropped {parameters : List Parameter}
    (dropped : options.drops (.call function parameters) = true) :
    (options.call function parameters).predicate = none := by
  by_cases skip : options.skipCalls = true
  · rw [call.eq_def, if_pos skip]
    rfl
  · have ignored : options.ignoresCall parameters = true := by simpa [drops, skip] using dropped
    match parameters, ignored with
    | .key ref :: first :: more, ignored =>
      have unknown := List.isEmpty_iff.1 (Bool.and_eq_true_iff.1 ignored).2
      rw [call_key, unknown, callParts_nil, if_neg skip]
      rfl

/-- An atom that is left out gives no condition. -/
theorem atom_dropped {atom : Atom} (dropped : options.drops atom = true) :
    (options.atom false atom).predicate = none := by
  have searches (text : String) (skip : options.skipFullText = true) :
      (options.search text).predicate = none := by
    rw [search, if_pos skip]
    rfl
  cases atom with
  | comparison => exact comparison_dropped dropped
  | call => exact call_dropped dropped
  | quotedText | freeText | bareKey | bareValue => exact searches _ dropped

theorem compared_kept (clean : (options.compared keys test).Clean) (known : keys ≠ [])
    (kept : selectsAllIn options.bindings test = false) :
    (options.compared keys test).predicate.isSome := by
  unfold compared at clean ⊢
  cases operand : operandOf options.bindings test with
  | dropped =>
    rw [operandOf_eq_dropped.1 operand] at kept
    cases kept
  | emptyVariable name =>
    rw [operand] at clean
    cases clean _ (List.mem_singleton_self _)
  | value value =>
    rw [operand] at clean
    exact options.conditions_kept (fun report among => clean report (by simp [Outcome.after, among]))
      known

theorem comparison_kept (clean : (options.comparison false ref test).Clean)
    (kept : options.drops (.comparison ref test) = false) :
    (options.comparison false ref test).predicate.isSome ∧
      options.strict.comparison false ref test = options.comparison false ref test := by
  obtain ⟨asked, some⟩ := Bool.or_eq_false_iff.1 kept
  have known : (options.candidates ref).keys ≠ [] := by
    intro unknown
    rw [ignores_of_clean (fun report among =>
      clean report (options.reports_comparison false ref test among)) unknown] at asked
    cases asked
  have made := options.comparison_eq ref test
  rw [asked, if_neg Bool.false_ne_true] at made
  constructor
  · rw [made] at clean ⊢
    exact compared_kept (fun report among => clean report (by simp [Outcome.after, among])) known
      some
  · rw [made, comparison_eq, candidates_strict known]
    rfl

theorem call_kept {parameters : List Parameter} (clean : (options.call function parameters).Clean)
    (kept : options.drops (.call function parameters) = false) :
    (options.call function parameters).predicate.isSome ∧
      options.strict.call function parameters = options.call function parameters := by
  obtain ⟨called, asked⟩ := Bool.or_eq_false_iff.1 kept
  match parameters, clean, asked with
  | .key ref :: first :: more, clean, asked =>
    rw [call_key, called, if_neg Bool.false_ne_true] at clean ⊢
    have known : (options.candidates ref).keys ≠ [] := by
      intro unknown
      have ignored := ignores_of_clean
        (fun report among => clean report (List.mem_append_left _ among)) unknown
      rw [ignoresCall, ignored] at asked
      cases asked
    constructor
    · have some := callParts_kept
        (fun report among => clean report (List.mem_append_right _ among)) known
      rw [Option.isSome_iff_ne_none, ne_eq, Predicate.join?_eq_none, List.map_eq_nil_iff]
      exact some
    · rw [call_key, candidates_strict known]
      rfl
  -- Calls that are not well formed are errors whether their key is known or not.
  | [], clean, _ | [.key _], clean, _ | [.value _], clean, _ | [.array _], clean, _
  | .value _ :: _ :: _, clean, _ | .array _ :: _ :: _, clean, _ =>
    rw [call.eq_def, called] at clean
    cases clean _ (List.mem_singleton_self _)

theorem search_kept {text : String} (clean : (options.search text).Clean)
    (asked : options.skipFullText = false) :
    (options.search text).predicate.isSome ∧
      options.strict.search text = options.search text := by
  constructor
  · rw [search, asked] at clean ⊢
    cases field : options.fullText with
    | none =>
      rw [field] at clean
      cases clean _ (List.mem_singleton_self _)
    | some key =>
      rw [field] at clean
      dsimp only at clean ⊢
      cases condition : options.table.condition key .regexp (.text (Pattern.ofSearch text)) with
      | ok fragment => simp
      | error reason =>
        rw [condition] at clean
        cases clean _ (List.mem_singleton_self _)
  · rw [search, search, asked]
    rfl

/-- An atom without errors that is not left out gives a condition, and the same one if nothing is
left out. -/
theorem atom_kept {atom : Atom} (clean : (options.atom false atom).Clean)
    (kept : options.drops atom = false) :
    (options.atom false atom).predicate.isSome ∧
      options.strict.atom false atom = options.atom false atom := by
  cases atom with
  | comparison => exact comparison_kept clean kept
  | call => exact call_kept clean kept
  | quotedText | freeText | bareKey | bareValue => exact search_kept clean kept

end Options

section Pruned

variable {options other : Options} {drops : Atom → Bool}

/-- Whether some atoms, unless they are dropped, give under other options what they give under
some, and give nothing if they are dropped. -/
def Agrees (options other : Options) (drops : Atom → Bool) (atoms : List Atom) : Prop :=
  ∀ atom ∈ atoms, (options.atom false atom).view =
    if drops atom then (none, true) else (other.atom false atom).view

mutual

theorem term_pruned : ∀ term : Term, Agrees options other drops term.atoms →
    (options.term false term).view =
      (term.prune drops).elim (none, true) fun kept => (other.term false kept).view
  | .atom negated atom => by
    intro agrees
    have single := agrees atom (by simp [Term.atoms])
    rw [Options.term, Term.prune]
    split at single
    · next dropped =>
      have void : (options.atom false atom).view = Outcome.dropped.view := single
      rw [if_pos dropped, Outcome.view_negateIf_congr void]
      cases negated <;> rfl
    · next kept =>
      rw [if_neg kept]
      exact Outcome.view_negateIf_congr single negated
  | .group negated branches => by
    intro agrees
    have joined := Outcome.view_join_congr (branches_pruned branches agrees) .any
    rw [Options.term, Term.prune, Outcome.view_negateIf_congr (Outcome.view_map_congr joined _)]
    rcases Filter.nonempty?_cases (Filter.pruneBranches drops branches) with
      ⟨none, left⟩ | ⟨-, left⟩
    · rw [left, none]
      cases negated <;> rfl
    · rw [left]
      rfl

theorem branches_pruned : ∀ branches : List (List Term),
    Agrees options other drops (Filter.branchesAtoms branches) →
      Outcome.views (options.branches false branches) =
        Outcome.views (other.branches false (Filter.pruneBranches drops branches))
  | [] => fun _ => rfl
  | terms :: rest => by
    intro agrees
    obtain ⟨first, later⟩ := List.forall_mem_append.1 agrees
    have joined := Outcome.view_join_congr (terms_pruned terms first) .all
    rw [Options.branches, Filter.pruneBranches, Outcome.views_cons, joined,
      branches_pruned rest later]
    rcases Filter.nonempty?_cases (Filter.pruneTerms drops terms) with ⟨none, left⟩ | ⟨-, left⟩
    · rw [left, none]
      rfl
    · rw [left]
      exact (Outcome.views_cons _ _).symm

theorem terms_pruned : ∀ terms : List Term,
    Agrees options other drops (Filter.termsAtoms terms) →
      Outcome.views (options.terms false terms) =
        Outcome.views (other.terms false (Filter.pruneTerms drops terms))
  | [] => fun _ => rfl
  | term :: rest => by
    intro agrees
    obtain ⟨first, later⟩ := List.forall_mem_append.1 agrees
    rw [Options.terms, Filter.pruneTerms, Outcome.views_cons, term_pruned term first,
      terms_pruned rest later]
    cases term.prune drops with
    | none => rfl
    | some kept => exact (Outcome.views_cons _ _).symm

end

theorem query_pruned {query : Query} (agrees : Agrees options other drops (Query.atoms query)) :
    (options.query false query).view = (other.query false (Query.prune drops query)).view := by
  cases query with
  | none =>
    -- By computation alone this is much slower to check.
    rw [Query.prune, Option.bind_none, Options.query, Options.query, Option.elim, Option.elim]
  | some branches =>
    have joined := Outcome.view_join_congr (branches_pruned branches agrees) .any
    refine joined.trans ?_
    rw [Query.prune, Option.bind_some]
    rcases Filter.nonempty?_cases (Filter.pruneBranches drops branches) with
      ⟨none, left⟩ | ⟨-, left⟩
    · rw [left, none]
      rfl
    · rw [left]
      rfl

end Pruned

/-- Atoms without errors that are kept give the same when nothing is left out. -/
theorem agrees_of_clean {options chosen : Options} (choice : chosen = options ∨ chosen = options.strict)
    {atoms : List Atom} (clean : ∀ atom ∈ atoms, (options.atom false atom).Clean) :
    Agrees options chosen options.drops atoms := by
  intro atom among
  split
  · next dropped =>
    have told : (options.atom false atom).clean = true := List.all_eq_true.2 (clean atom among)
    rw [Outcome.view, Options.atom_dropped dropped, told]
  · next kept =>
    have same := (Options.atom_kept (clean atom among) (by simpa using kept)).2
    rcases choice with rfl | rfl
    · rfl
    · rw [same]

/-- A filter that leaves terms out has the clause and the values of what is left of it, whether or
not that is compiled with the same things left out. What is left has no dropped terms and no empty
parts, and each of its terms gives a condition. -/
theorem compile_pruned {options : Options} {text : String} {clause : Clause}
    (kept : options.skipResource = false) (compiled : compile options text = .ok clause) :
    let query := (Filter.read text).query
    let left := Query.prune options.drops query
    (∀ chosen, chosen = options ∨ chosen = options.strict →
      ∃ other, chosen.compileVisited false left = .ok other ∧
        other.script.sql = clause.sql ∧ other.arguments = clause.arguments) ∧
      Query.atoms left = (Query.atoms query).filter (!options.drops ·) ∧
      Query.isFull left = true ∧
      (∀ atom ∈ Query.atoms left, (options.atom false atom).predicate.isSome) ∧
      (left = none → clause.sql = "true" ∧ clause.arguments = []) := by
  intro query left
  obtain ⟨-, clean, rfl⟩ := compile_eq_ok.1 compiled
  have unskipped : options.outcome text = options.query false query := by
    rw [Options.outcome, Options.skips, kept, Bool.false_and]
  rw [unskipped] at clean ⊢
  have leaves := options.atoms_clean clean
  have views (chosen : Options) (choice : chosen = options ∨ chosen = options.strict) :
      (options.query false query).view = (chosen.query false left).view :=
    query_pruned (agrees_of_clean choice leaves)
  refine ⟨?_, Query.atoms_prune _ query, Query.isFull_prune _ query, ?_, ?_⟩
  · intro chosen choice
    obtain ⟨same, told⟩ := Prod.mk.inj (views chosen choice)
    have also : (chosen.query false left).Clean := by
      have all : (options.query false query).clean = true := List.all_eq_true.2 clean
      rw [told] at all
      exact List.all_eq_true.1 all
    obtain ⟨warnings, ok⟩ := chosen.compileVisited_clean also
    rw [← same] at ok
    exact ⟨_, ok, Sql.Fragment.sql_mark 0 _, rfl⟩
  · intro atom among
    rw [Query.atoms_prune, List.mem_filter] at among
    exact (Options.atom_kept (leaves atom among.1) (by simpa using among.2)).1
  · intro none
    have same := congrArg Prod.fst (views options (.inl rfl))
    rw [none] at same
    have void : (options.query false query).predicate = .none := same
    rw [void]
    exact ⟨rfl, rfl⟩

/-- Terms left out for four reasons, in groups and under negations: one of six stays, with its
negation. -/
theorem compile_pruned_nested :
    let options : Options :=
      { catalog := .ofKeys [{ name := "code", context := .attributes, type := .string }]
        ignoreUnknown := true, skipFullText := true, skipCalls := true
        bindings := [("v", ⟨.dynamic, .text "__all__"⟩)] }
    let text := "NOT (code NOT IN ($v) OR 'any') NOT has(body.x, 1) (x = 1 OR NOT code = 'a' 200)"
    let left := Query.prune options.drops (Filter.read text).query
    ∃ clause, compile options text = .ok clause ∧
      (∃ other, options.strict.compileVisited false left = .ok other ∧
        other.script.sql = clause.sql ∧ other.arguments = clause.arguments) ∧
      clause.sql = "(NOT ((attributes_string['code'] = ? AND " ++
        "mapContains(attributes_string, 'code') = ?)))" ∧
      clause.arguments.filterMap Value.text? = ["a"] := by
  intro options text left
  have run : (compile options text).toOption.map
      (fun clause => (clause.sql, clause.arguments.filterMap Value.text?)) =
      some ("(NOT ((attributes_string['code'] = ? AND " ++
        "mapContains(attributes_string, 'code') = ?)))", ["a"]) := by
    decide +kernel
  cases compiled : compile options text with
  | error failure =>
    rw [compiled] at run
    cases run
  | ok clause =>
    rw [compiled] at run
    obtain ⟨sql, texts⟩ := Prod.mk.inj (Option.some.inj run)
    have pruned := (compile_pruned rfl compiled).1 options.strict (.inr rfl)
    exact ⟨clause, rfl, pruned, sql, texts⟩

end TelemetryQuery.Where
