import TelemetryQuery.Proofs.Filter.Pruning
import TelemetryQuery.Proofs.Where.Resource
/- Variables that select everything: a filter compiled with them, and compiled after they have been
replaced. -/
namespace TelemetryQuery.Where

open TelemetryQuery.Filter (KeyRef Test Atom Term Parameter Literal Variables Query Operands parse)
open TelemetryQuery.Filter (replaceTerms replaceBranches replaceVariables)

variable {query : Query} {text : String} {test : Test}

namespace Outcome

def clean (outcome : Outcome) : Bool :=
  outcome.reports.all (·.problem.isWarning)

/-- What of an outcome makes the clause: its predicate, and whether there are no errors. -/
def view (outcome : Outcome) : Option Predicate × Bool :=
  (outcome.predicate, outcome.clean)

/-- What of several outcomes makes their joining. -/
def views (outcomes : List Outcome) : List Predicate × Bool :=
  (outcomes.filterMap predicate, outcomes.all clean)

theorem view_join (make : List Predicate → Predicate) (outcomes : List Outcome) :
    (join make outcomes).view = (Predicate.join? make (views outcomes).1, (views outcomes).2) := by
  rw [view, join, views, clean, List.all_flatMap]
  rfl

theorem views_cons (outcome : Outcome) (outcomes : List Outcome) :
    views (outcome :: outcomes) =
      (outcome.view.1.toList ++ (views outcomes).1, outcome.view.2 && (views outcomes).2) := by
  rw [views, List.filterMap_cons, List.all_cons]
  cases made : outcome.predicate <;> simp [view, views, made]

theorem view_map (make : Predicate → Predicate) (outcome : Outcome) :
    (outcome.map make).view = (outcome.view.1.map make, outcome.view.2) :=
  rfl

theorem view_map_congr {a b : Outcome} (same : a.view = b.view) (make : Predicate → Predicate) :
    (a.map make).view = (b.map make).view := by
  rw [view_map, view_map, same]

theorem view_negateIf_congr {a b : Outcome} (same : a.view = b.view) (negated : Bool) :
    (a.negateIf negated).view = (b.negateIf negated).view := by
  cases negated with
  | false => exact same
  | true => exact view_map_congr same _

theorem view_join_congr {v w : List Outcome} (same : views v = views w)
    (make : List Predicate → Predicate) : (join make v).view = (join make w).view := by
  rw [view_join, view_join, same]

theorem view_after (reports : List Diagnostic) (outcome : Outcome) :
    (outcome.after reports).view =
      (outcome.view.1, reports.all (·.problem.isWarning) && outcome.view.2) := by
  rw [view, after, clean, List.all_append]
  rfl

/-- The clause that an outcome makes, if it has no errors. -/
def fragment? (view : Option Predicate × Bool) : Option Sql.Fragment :=
  if view.2 then some (view.1.elim (.ofText "true") Predicate.fragment) else none

end Outcome

/-- The clause of a text that is read is made of the view of its outcome. -/
theorem compile_view (options : Options) (ok : parse text = .ok query) :
    (compile options text).toOption.map Clause.fragment =
      Outcome.fragment? (options.query (options.skips text) query).view := by
  obtain ⟨clean, rfl⟩ := Filter.parse_eq_ok.1 ok
  rw [← Options.outcome, Outcome.fragment?, Outcome.view]
  by_cases warnings : (options.outcome text).clean = true
  · have compiled := compile_eq_ok.2 ⟨clean, List.all_eq_true.1 warnings, rfl⟩
    rw [compiled, if_pos warnings]
    rfl
  · rw [if_neg warnings]
    cases compiled : compile options text with
    | error _ => rfl
    | ok clause =>
      obtain ⟨-, only, -⟩ := compile_eq_ok.1 compiled
      exact absurd (List.all_eq_true.2 only) warnings

theorem compile_fragment {options : Options} (ok : parse text = .ok query)
    (kept : options.skipResource = false) :
    (compile options text).toOption.map Clause.fragment =
      Outcome.fragment? (options.query false query).view := by
  rw [compile_view options ok, Options.skips, kept, Bool.false_and]

/-- Whether nothing but warnings is reported about a key. -/
def Candidates.clean (found : Candidates) : Bool :=
  found.reports.all (·.problem.isWarning)

namespace Options

variable (options : Options)

/-- The place of a key is told in reports only. -/
theorem candidates_unplaced (ref : KeyRef) :
    (options.candidates ref.unplaced).keys = (options.candidates ref).keys ∧
      (options.candidates ref.unplaced).clean = (options.candidates ref).clean := by
  simp only [candidates, KeyRef.unplaced]
  rcases agreeing options.catalog (Field.Key.ofText ref.text) with _ | ⟨known, _ | ⟨other, more⟩⟩
  · cases options.catalog.find (Field.Key.ofText ref.text).qualifiedName with
    | nil =>
      refine ⟨rfl, ?_⟩
      simp only [Candidates.clean, unknownKey]
      split
      · rfl
      · split <;> rfl
    | cons => exact ⟨rfl, rfl⟩
  · exact ⟨rfl, rfl⟩
  · exact ⟨rfl, rfl⟩

theorem comparison_unplaced (skipResource : Bool) (ref : KeyRef) (test : Test) :
    (options.comparison skipResource ref.unplaced test).view =
      (options.comparison skipResource ref test).view := by
  obtain ⟨keys, clean⟩ := options.candidates_unplaced ref
  rw [Candidates.clean, Candidates.clean] at clean
  simp only [comparison, keys]
  generalize (if skipResource = true then _ else _) = kept
  split
  · simp only [Outcome.view, Outcome.clean, clean]
  · rw [Outcome.view_after, Outcome.view_after, clean]

theorem parameterValue_unplaced (parameter : Parameter) :
    parameterValue parameter.unplaced = parameterValue parameter := by
  cases parameter <;> rfl

/-- The conditions of a call on known fields, and what is reported about it. -/
def callParts (function : Filter.Function) (values : List Value) (keys : List Field.Key) :
    List Sql.Fragment × List Diagnostic :=
  match function with
  | .hasToken => tokenConditions values.head? keys
  | .has => arrayConditions function (values.headD .null) keys
  | _ =>
    arrayConditions function
      (match values with
        | [.list items] => .list items
        | _ => .list values) keys

theorem call_key (function : Filter.Function) (ref : KeyRef) (first : Parameter)
    (more : List Parameter) :
    options.call function (.key ref :: first :: more) =
      if options.skipCalls then .dropped
      else
        let made := callParts function ((first :: more).map parameterValue)
          (options.candidates ref).keys
        ⟨Predicate.join? .any (made.1.map .atom), (options.candidates ref).reports ++ made.2⟩ := by
  cases function <;> rfl

theorem call_unplaced (function : Filter.Function) (parameters : List Parameter) :
    (options.call function (parameters.map Parameter.unplaced)).view =
      (options.call function parameters).view := by
  match parameters with
  | [] => rfl
  | [.key _] => rfl
  | [.value _] => rfl
  | [.array _] => rfl
  | .value _ :: _ :: _ => rfl
  | .array _ :: _ :: _ => rfl
  | .key ref :: first :: more =>
    obtain ⟨keys, clean⟩ := options.candidates_unplaced ref
    rw [Candidates.clean, Candidates.clean] at clean
    have values : (first.unplaced :: more.map Parameter.unplaced).map parameterValue =
        (first :: more).map parameterValue := by
      rw [← List.map_cons, List.map_map]
      exact List.map_congr_left fun parameter _ => parameterValue_unplaced parameter
    rw [List.map_cons, List.map_cons, Parameter.unplaced, call_key, call_key, keys, values]
    split
    · rfl
    · simp only [Outcome.view, Outcome.clean, List.all_append, clean]

theorem atom_unplaced (skipResource : Bool) (atom : Atom) :
    (options.atom skipResource atom.unplaced).view = (options.atom skipResource atom).view := by
  cases atom with
  | comparison ref test => exact options.comparison_unplaced skipResource ref test
  | call function parameters => exact options.call_unplaced function parameters
  | _ => rfl

mutual

theorem term_unplaced (skipResource : Bool) : ∀ term : Term,
    (options.term skipResource term.unplaced).view = (options.term skipResource term).view
  | .atom negated atom => by
    rw [Term.unplaced, term, term]
    exact Outcome.view_negateIf_congr (options.atom_unplaced skipResource atom) negated
  | .group negated branches => by
    rw [Term.unplaced, term, term]
    have joined := Outcome.view_join_congr (branches_unplaced skipResource branches) .any
    exact Outcome.view_negateIf_congr (Outcome.view_map_congr joined _) negated

theorem branches_unplaced (skipResource : Bool) : ∀ branches : List (List Term),
    Outcome.views (options.branches skipResource (Filter.unplacedBranches branches)) =
      Outcome.views (options.branches skipResource branches)
  | [] => rfl
  | terms :: rest => by
    have joined := Outcome.view_join_congr (terms_unplaced skipResource terms) .all
    rw [Filter.unplacedBranches, branches, branches, Outcome.views_cons, Outcome.views_cons,
      joined, branches_unplaced skipResource rest]

theorem terms_unplaced (skipResource : Bool) : ∀ terms : List Term,
    Outcome.views (options.terms skipResource (Filter.unplacedTerms terms)) =
      Outcome.views (options.terms skipResource terms)
  | [] => rfl
  | term :: rest => by
    rw [Filter.unplacedTerms, terms, terms, Outcome.views_cons, Outcome.views_cons,
      term_unplaced skipResource term, terms_unplaced skipResource rest]

end

/-- Filters that differ in the places of keys make the same clause. -/
theorem query_view_of_unplaced {skipResource : Bool} {other : Query}
    (same : Query.unplaced query = Query.unplaced other) :
    (options.query skipResource query).view = (options.query skipResource other).view := by
  have each (query : Query) : (options.query skipResource query.unplaced).view =
      (options.query skipResource query).view := by
    cases query with
    | none => rfl
    | some branches =>
      exact Outcome.view_join_congr (options.branches_unplaced skipResource branches) .any
  rw [← each query, same, each other]

def plain (options : Options) : Options :=
  { options with bindings := [] }

/-- Nothing but warnings is reported about a known key. -/
theorem candidates_clean {ref : KeyRef} (known : (options.candidates ref).keys ≠ []) :
    (options.candidates ref).clean = true := by
  revert known
  simp only [candidates]
  rcases agreeing options.catalog (Field.Key.ofText ref.text) with _ | ⟨known, _ | ⟨other, more⟩⟩
  · cases options.catalog.find (Field.Key.ofText ref.text).qualifiedName with
    | nil => exact fun known => absurd rfl known
    | cons => exact fun _ => rfl
  · exact fun _ => rfl
  · exact fun _ => rfl

end Options

section Listed

variable {table : Variables}

/-- Whether a literal that is compared names a variable, with a dollar sign or without. -/
def names (table : Variables) (literal : Literal) : Bool :=
  (literal.value.text?.bind (named? table)).isSome

/-- Whether a test uses variables only as the one item of a list, and there with a dollar sign. -/
def listedTest (table : Variables) : Test → Bool
  | .relation _ value => !names table value && !table.refers value.content
  | .pattern _ _ value => !names table value && !table.refers value.content
  | .between _ low high => !table.refers low.content && !table.refers high.content
  | .among _ operands =>
    match operands.values with
    | [value] => names table value == table.refers value.content
    | values => !(values.map Literal.content).any table.refers
  | .present _ => true

/-- Whether an atom uses variables only as the one item of the list that a key is tested for. -/
def listedAtom (table : Variables) : Atom → Bool
  | .comparison key test => !table.refers key.text && listedTest table test
  | atom => !atom.contents.any table.refers

theorem named?_selectsAll (all : table.SelectAll) {name : String} {v : Filter.Variable}
    (found : named? table text = some (name, v)) : v.selectsAll = true := by
  unfold named? at found
  split at found
  · next direct =>
    cases found
    exact Filter.selectsAll_of_lookup all direct
  · split at found
    · obtain ⟨w, bare, same⟩ := Option.map_eq_some_iff.1 found
      cases same
      exact Filter.selectsAll_of_lookup all bare
    · cases found

/-- A literal that names no variable is compared as it is. -/
theorem scalarOperand_eq {literal : Literal} (unnamed : names table literal = false) :
    scalarOperand table literal.value = .value literal.value := by
  rw [names, Option.isSome_eq_false_iff, Option.isNone_iff_eq_none] at unnamed
  rw [scalarOperand, unnamed]

theorem listOperand_eq {literal : Literal} (unnamed : names table literal = false) :
    listOperand table [literal.value] = .value (.list [literal.value]) := by
  rw [names, Option.isSome_eq_false_iff, Option.isNone_iff_eq_none] at unnamed
  rw [listOperand, unnamed]

theorem listOperand_dropped (all : table.SelectAll) {literal : Literal}
    (named : names table literal = true) : listOperand table [literal.value] = .dropped := by
  obtain ⟨⟨name, v⟩, found⟩ := Option.isSome_iff_exists.1 named
  obtain ⟨text, -, looked⟩ := Option.bind_eq_some_iff.1 found
  rw [listOperand, found]
  simp [named?_selectsAll all looked]

theorem names_nil (literal : Literal) : names [] literal = false := by
  have none (text : String) : named? [] text = none := by
    rw [named?, List.lookup_nil]
    dsimp only
    split <;> rfl
  rw [names]
  cases literal.value.text? with
  | none => rfl
  | some text => rw [Option.bind_some, none, Option.isSome_none]

/-- Without references, a test is compiled as if there were no variables. -/
theorem operandOf_kept (listed : listedTest table test = true)
    (kept : (test.literals.map Literal.content).any table.refers = false) :
    operandOf table test = operandOf [] test.rounded := by
  cases test with
  | relation op value =>
    simp only [listedTest, Bool.and_eq_true, Bool.not_eq_true'] at listed
    exact (scalarOperand_eq listed.1).trans (scalarOperand_eq (names_nil value)).symm
  | pattern negated matcher value =>
    simp only [listedTest, Bool.and_eq_true, Bool.not_eq_true'] at listed
    exact (scalarOperand_eq listed.1).trans (scalarOperand_eq (names_nil value)).symm
  | between negated low high => rfl
  | present negated => rfl
  | among negated operands =>
    have rounded : operands.rounded.values = operands.values := by cases operands <;> rfl
    simp only [Test.rounded, operandOf, rounded]
    simp only [Test.literals, listedTest] at kept listed
    cases values : operands.values with
    | nil => rfl
    | cons value others =>
      cases others with
      | nil =>
        rw [values] at listed kept
        have free : table.refers value.content = false := by simpa using kept
        have unnamed : names table value = false := by simpa [free] using listed
        exact (listOperand_eq unnamed).trans (listOperand_eq (names_nil value)).symm
      | cons _ _ => rfl

/-- A reference is the one item of a list, and the test is dropped. -/
theorem operandOf_dropped (all : table.SelectAll) (listed : listedTest table test = true)
    (drops : (test.literals.map Literal.content).any table.refers = true) :
    operandOf table test = .dropped := by
  cases test with
  | relation op value =>
    simp only [listedTest, Bool.and_eq_true, Bool.not_eq_true'] at listed
    simp [Test.literals, listed.2] at drops
  | pattern negated matcher value =>
    simp only [listedTest, Bool.and_eq_true, Bool.not_eq_true'] at listed
    simp [Test.literals, listed.2] at drops
  | between negated low high =>
    simp only [listedTest, Bool.and_eq_true, Bool.not_eq_true'] at listed
    simp [Test.literals, listed] at drops
  | present negated => cases drops
  | among negated operands =>
    simp only [operandOf]
    simp only [Test.literals, listedTest] at drops listed
    cases values : operands.values with
    | nil =>
      rw [values] at drops
      cases drops
    | cons value others =>
      rw [values] at listed drops
      cases others with
      | nil =>
        have refers : table.refers value.content = true := by simpa using drops
        have named : names table value = true := by simpa [refers] using listed
        exact listOperand_dropped all named
      | cons _ _ =>
        dsimp only at listed
        rw [drops] at listed
        cases listed

end Listed

namespace Options

variable {options : Options}

theorem comparison_view (all : options.bindings.SelectAll) {ref : KeyRef}
    (known : (options.candidates ref).keys ≠ [])
    (listed : listedTest options.bindings test = true) :
    (options.comparison false ref test).view =
      if (test.literals.map Literal.content).any options.bindings.refers then (none, true)
      else (options.plain.comparison false ref test.rounded).view := by
  have clean := options.candidates_clean known
  have operator : test.rounded.operator = test.operator := by cases test <;> rfl
  have fields : options.fields false ref ≠ [] := known
  have plainFields : options.plain.fields false ref ≠ [] := known
  rw [options.comparison_some fields]
  split
  · next drops =>
    rw [compared, operandOf_dropped all listed drops, Outcome.view_after]
    rw [Candidates.clean] at clean
    rw [clean]
    rfl
  · next kept =>
    rw [options.plain.comparison_some plainFields, compared, compared,
      operandOf_kept listed (by simpa using kept), operator]
    rfl

/-- Whether the key of an atom is known, if it compares one. -/
def knows (options : Options) : Atom → Bool
  | .comparison ref _ => !(options.candidates ref).keys.isEmpty
  | _ => true

/-- An atom of a known key that uses variables in lists only. -/
structure Settled (options : Options) (atom : Atom) : Prop where
  known : options.knows atom = true
  listed : listedAtom options.bindings atom = true

/-- Such an atom gives what is left of it when variables are replaced, or nothing. -/
theorem Settled.atom_view (all : options.bindings.SelectAll) {atom : Atom}
    (settled : options.Settled atom) :
    (options.atom false atom).view =
      (atom.replace options.bindings).elim (none, true)
        fun kept => (options.plain.atom false kept).view := by
  obtain ⟨known, listed⟩ := settled
  rw [Atom.replace_eq all]
  cases atom with
  | comparison ref test =>
    simp only [listedAtom, Bool.and_eq_true, Bool.not_eq_true'] at listed
    have compared := comparison_view all (by simpa [knows] using known) listed.2
    rw [Options.atom, compared, Atom.contents, List.any_cons, listed.1, Bool.false_or]
    cases (test.literals.map Literal.content).any options.bindings.refers <;> rfl
  | _ =>
    simp only [listedAtom, Bool.not_eq_true'] at listed
    rw [listed]
    rfl

mutual

/-- A term gives what is left of it, or nothing. -/
theorem term_view (all : options.bindings.SelectAll) : ∀ term : Term,
    (∀ atom ∈ term.atoms, options.Settled atom) →
      (options.term false term).view = (term.replace options.bindings).elim (none, true)
        fun kept => (options.plain.term false kept).view
  | .atom negated atom => by
    intro settled
    have single := (settled atom (by simp [Term.atoms])).atom_view all
    rw [term, Term.replace]
    cases kept : atom.replace options.bindings with
    | none =>
      rw [kept] at single
      have void : (options.atom false atom).view = Outcome.dropped.view := single
      rw [Outcome.view_negateIf_congr void]
      cases negated <;> rfl
    | some left =>
      rw [kept] at single
      exact Outcome.view_negateIf_congr single negated
  | .group negated branches => by
    intro settled
    have inner := branches_views all branches (by simpa [Term.atoms] using settled)
    rw [term, Term.replace_group]
    have joined := Outcome.view_join_congr inner .any
    rw [Outcome.view_negateIf_congr (Outcome.view_map_congr joined _)]
    cases replaceBranches options.bindings branches with
    | nil => cases negated <;> rfl
    | cons first rest => rfl

theorem branches_views (all : options.bindings.SelectAll) : ∀ branches : List (List Term),
    (∀ atom ∈ Filter.branchesAtoms branches, options.Settled atom) →
      Outcome.views (options.branches false branches) =
        Outcome.views (options.plain.branches false (replaceBranches options.bindings branches))
  | [] => fun _ => rfl
  | terms :: rest => by
    intro settled
    rw [Filter.branchesAtoms] at settled
    obtain ⟨first, later⟩ := List.forall_mem_append.1 settled
    have joined := Outcome.view_join_congr (terms_views all terms first) .all
    rw [branches, Filter.replaceBranches_cons, Outcome.views_cons, joined,
      branches_views all rest later]
    cases replaceTerms options.bindings terms with
    | nil => rfl
    | cons left more => exact (Outcome.views_cons _ _).symm

theorem terms_views (all : options.bindings.SelectAll) : ∀ terms : List Term,
    (∀ atom ∈ Filter.termsAtoms terms, options.Settled atom) →
      Outcome.views (options.terms false terms) =
        Outcome.views (options.plain.terms false (replaceTerms options.bindings terms))
  | [] => fun _ => rfl
  | term :: rest => by
    intro settled
    rw [Filter.termsAtoms] at settled
    obtain ⟨first, later⟩ := List.forall_mem_append.1 settled
    rw [terms, replaceTerms, Outcome.views_cons, term_view all term first,
      terms_views all rest later]
    cases term.replace options.bindings with
    | none => rfl
    | some kept => exact (Outcome.views_cons _ _).symm

end

theorem query_view (all : options.bindings.SelectAll)
    (settled : ∀ atom ∈ Query.atoms query, options.Settled atom) :
    (options.query false query).view =
      (options.plain.query false (Query.replace options.bindings query)).view := by
  cases query with
  | none => rfl
  | some branches =>
    have joined := Outcome.view_join_congr (branches_views all branches settled) .any
    rw [Query.replace_some]
    refine joined.trans ?_
    cases replaceBranches options.bindings branches <;> rfl

end Options

/-- Variables that select everything and stand alone in lists take their comparisons out of the
clause: a filter compiled with them has the clause of the filter that replacing them leaves. -/
theorem compile_select_all {options : Options} {text : String} {query : Query}
    (ok : parse text = .ok query) (all : options.bindings.SelectAll)
    (kept : options.skipResource = false)
    (known : ∀ atom ∈ Query.atoms query, options.knows atom = true)
    (listed : ∀ atom ∈ Query.atoms query, listedAtom options.bindings atom = true) :
    ∃ replaced, replaceVariables options.bindings text = .ok replaced ∧
      (compile options text).toOption.map Clause.fragment =
        (compile options.plain replaced).toOption.map Clause.fragment := by
  obtain ⟨replaced, found, printed, read, same⟩ := Filter.parse_replaceVariables all ok
  have settled : ∀ atom ∈ Query.atoms query, options.Settled atom :=
    fun atom mem => ⟨known atom mem, listed atom mem⟩
  have keptPlain : options.plain.skipResource = false := kept
  refine ⟨replaced, printed, ?_⟩
  rw [compile_fragment ok kept, compile_fragment read keptPlain, Options.query_view all settled,
    options.plain.query_view_of_unplaced same]

/-- Lists in groups and under negations; one of the names has the dollar sign itself. -/
theorem compile_select_all_nested :
    let options : Options :=
      { catalog := .ofKeys
          [{ name := "service.name", context := .resource, type := .string },
            { name := "code", context := .attributes, type := .number }]
        bindings :=
          [("all", ⟨.dynamic, .text "__all__"⟩), ("$env", ⟨.dynamic, .list [.text "__all__"]⟩)] }
    let text := "NOT (service.name IN $all OR NOT (service.name NOT IN ['$env'])) code IN [1, 2]" ++
      " OR NOT code NOT IN ($all)"
    ∃ replaced, replaceVariables options.bindings text = .ok replaced ∧
      (compile options text).toOption.map Clause.fragment =
        (compile options.plain replaced).toOption.map Clause.fragment := by
  intro options text
  have all : options.bindings.all (fun entry => entry.2.selectsAll) = true := by decide +kernel
  obtain ⟨clean, known, listed⟩ : (Filter.read text).errors = [] ∧
      (Query.atoms (Filter.read text).query).all options.knows = true ∧
      (Query.atoms (Filter.read text).query).all (listedAtom options.bindings) = true := by
    decide +kernel
  exact compile_select_all (Filter.parse_eq_ok.2 ⟨clean, rfl⟩) (List.all_eq_true.1 all) rfl
    (List.all_eq_true.1 known) (List.all_eq_true.1 listed)

/-- Outside of lists a variable that selects everything is compared with like any other, and the
value that marks it is bound; replacing it takes the comparison out. -/
theorem compile_binds_select_all :
    let options : Options :=
      { catalog := .ofKeys [{ name := "service.name", context := .resource, type := .string }]
        bindings := [("all", ⟨.dynamic, .text "__all__"⟩)] }
    let text := "service.name = $all"
    options.bindings.SelectAll ∧ options.skipResource = false ∧
      (Query.atoms (Filter.read text).query).all options.knows = true ∧
      (compile options text).toOption.map (·.arguments.filterMap Value.text?) =
        some [Filter.allValues] ∧
      (replaceVariables options.bindings text).toOption = some "" ∧
      (compile options.plain "").toOption.map
        (fun clause => (clause.sql, clause.arguments.length)) = some ("true", 0) := by
  intro options text
  have all : options.bindings.all (fun entry => entry.2.selectsAll) = true := by decide +kernel
  exact ⟨List.all_eq_true.1 all, rfl, by decide +kernel, by decide +kernel, by decide +kernel,
    by decide +kernel⟩

end TelemetryQuery.Where
