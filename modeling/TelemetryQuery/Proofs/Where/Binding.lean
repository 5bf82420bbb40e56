import TelemetryQuery.Proofs.Schema.Binding
import TelemetryQuery.Where.Clause
/- Filters compiled by a builder, which binds values while terms are still written and dropped. -/
namespace TelemetryQuery.Where

open TelemetryQuery.Field (Key)
open TelemetryQuery.Filter (KeyRef Test Atom Term Parameter)
open TelemetryQuery.Sql (Fragment Script Builder)

/-- What is written for a part of a filter, nothing if it is left out, and what is reported. -/
structure Written where
  script : Script
  reports : List Diagnostic

namespace Written

def reported (problem : Problem) : Written :=
  ⟨[], [⟨problem, none⟩]⟩

/-- Puts reports before those of what is written. -/
def after (reports : List Diagnostic) (written : Written) : Written :=
  { written with reports := reports ++ written.reports }

/-- Joins what is not left out by a connective. -/
def join (connective : String) (parts : List Written) : Written :=
  ⟨.connect connective ((parts.map script).filter (!·.isEmpty)), parts.flatMap reports⟩

/-- Puts what is not left out into brackets, after an opening text. -/
def enclose (opening : String) (written : Written) : Written :=
  if written.script.isEmpty then written
  else { written with script := .ofText opening ++ written.script ++ .ofText ")" }

theorem reports_enclose (written : Written) (opening : String) :
    (written.enclose opening).reports = written.reports := by
  unfold enclose
  split <;> rfl

def negateIf (negated : Bool) (written : Written) : Written :=
  if negated then written.enclose "NOT (" else written

end Written

namespace Options

/-- One condition after the other, up to the first that is refused. -/
def bindEach (options : Options) (operator : Operator) (value : Value) :
    List Key → Builder (Except Schema.Refusal (List Script))
  | [] => return .ok []
  | key :: rest => do
    match ← options.table.bindCondition key operator value with
    | .error reason => return .error reason
    | .ok script => return (← options.bindEach operator value rest).map (script :: ·)

def bindConditions (options : Options) (keys : List Key) (operator : Operator) (value : Value) :
    Builder Written := do
  match ← options.bindEach operator value keys with
  | .ok scripts => return ⟨.connect (if operator.isNegative then "AND" else "OR") scripts, []⟩
  | .error reason => return .reported (.conditionFailed reason)

def bindComparison (options : Options) (skipResource : Bool) (ref : KeyRef) (test : Test) :
    Builder Written :=
  let found := options.candidates ref
  let keys :=
    if skipResource then found.keys.filter (·.context != .resource) else found.keys
  if keys.isEmpty && (skipResource || options.ignoreUnknown) then return ⟨[], found.reports⟩
  else
    .after found.reports <$>
      match operandOf options.bindings test with
      | .dropped => return ⟨[], []⟩
      | .emptyVariable name => return .reported (.emptyVariable name)
      | .value value =>
        .after (wildcardWarning test.operator value) <$>
          options.bindConditions keys test.operator value

end Options

/-- The conditions of a search for a token, up to the first field that ends it. -/
def bindTokens (token : Option Value) : List Key → Builder (Option (List Script) × List Diagnostic)
  | [] => return (some [], [])
  | key :: rest => do
    let outside : List Diagnostic :=
      if key.name = "body" then [] else [⟨.tokenOutsideBody .hasToken, none⟩]
    match token with
    -- A field outside the body is an error, but its condition is written all the same.
    | some (.text text) => do
      let hole ← Builder.var (.text text)
      let (scripts, reports) ← bindTokens token rest
      return (scripts.map ((.ofText ("hasToken(LOWER(" ++ key.name ++ "), LOWER(") ++ hole ++
        .ofText "))") :: ·), outside ++ reports)
    | _ => return (none, outside ++ [⟨.noTextParameter .hasToken, none⟩])

/-- The conditions of a call on arrays in the body, up to the first field outside of it. -/
def bindArrays (function : Filter.Function) (value : Value) :
    List Key → Builder (Option (List Script) × List Diagnostic)
  | [] => return (some [], [])
  | key :: rest =>
    if key.context = .body then do
      let script ← Schema.Table.bindEnclosed
        (function.text ++ "(" ++ Schema.Table.bodyField key ++ ", ") value
      let (scripts, reports) ← bindArrays function value rest
      return (scripts.map (script :: ·), reports)
    else return (none, [⟨.callOutsideBody function, none⟩])

namespace Options

def bindCall (options : Options) (function : Filter.Function) (parameters : List Parameter) :
    Builder Written :=
  if options.skipCalls then return ⟨[], []⟩
  else
    match parameters with
    | .key ref :: first :: more => do
      let found := options.candidates ref
      let values := (first :: more).map parameterValue
      let list := match values with
        | [.list items] => Value.list items
        | _ => .list values
      let (scripts, reports) ← match function with
        | .hasToken => bindTokens values.head? found.keys
        | .has => bindArrays function (parameterValue first) found.keys
        | _ => bindArrays function list found.keys
      return ⟨scripts.elim [] (.connect "OR"), found.reports ++ reports⟩
    | _ :: _ :: _ => return .reported (.noKeyParameter function)
    | _ => return .reported (.missingParameters function)

def bindSearch (options : Options) (text : String) : Builder Written :=
  if options.skipFullText then return ⟨[], []⟩
  else
    match options.fullText with
    | none => return .reported .fullTextUnsupported
    | some key => do
      match ← options.table.bindCondition key .regexp (.text (Pattern.ofSearch text)) with
      | .ok script => return ⟨script, []⟩
      | .error reason => return .reported (.fullTextFailed reason)

def bindAtom (options : Options) (skipResource : Bool) : Atom → Builder Written
  | .comparison ref test => options.bindComparison skipResource ref test
  | .call function parameters => options.bindCall function parameters
  | .quotedText raw => options.bindSearch (Text.unquote raw)
  | .freeText text => options.bindSearch text
  | .bareKey ref => options.bindSearch ref.text
  | .bareValue literal => options.bindSearch literal.content

mutual

/-- A term, written while its values are bound. -/
def bindTerm (options : Options) (skipResource : Bool) : Term → Builder Written
  | .atom negated atom => .negateIf negated <$> options.bindAtom skipResource atom
  | .group negated branches => do
    let parts ← options.bindBranches skipResource branches
    return ((Written.join "OR" parts).enclose "(").negateIf negated

def bindBranches (options : Options) (skipResource : Bool) :
    List (List Term) → Builder (List Written)
  | [] => return []
  | terms :: rest => do
    let parts ← options.bindTerms skipResource terms
    return .join "AND" parts :: (← options.bindBranches skipResource rest)

def bindTerms (options : Options) (skipResource : Bool) : List Term → Builder (List Written)
  | [] => return []
  | term :: rest => do
    let part ← options.bindTerm skipResource term
    return part :: (← options.bindTerms skipResource rest)

end

def bindQuery (options : Options) (skipResource : Bool) (query : Filter.Query) : Builder Written :=
  query.elim (return ⟨[], []⟩) fun branches =>
    .join "OR" <$> options.bindBranches skipResource branches

end Options

/-- A compiled filter as it was written, with all values that were bound on the way. -/
structure BoundClause where
  script : Script
  arguments : List Value
  warnings : List Diagnostic

/-- Compiles a filter with a builder, which starts without values. -/
def compileBound (options : Options) (text : String) : Except Failure BoundClause :=
  let parsed := Filter.read text
  if !parsed.errors.isEmpty then .error (.faulty parsed.errors)
  else
    let (written, bound) :=
      (options.bindQuery (options.skipResource && !parsed.hasOr) parsed.query).result []
    let errors := written.reports.filter (!·.problem.isWarning)
    if !errors.isEmpty then .error (.semantic errors)
    else
      .ok
        { script := if written.script.isEmpty then .ofText "true" else written.script
          arguments := bound
          warnings := distinctWarnings [] (written.reports.filter (·.problem.isWarning)) }

theorem Predicate.fragments_eq_map (parts : List Predicate) :
    fragments parts = parts.map fragment := by
  induction parts with
  | nil => rw [fragments, List.map_nil]
  | cons part parts ih => rw [fragments, ih, List.map_cons]

/-- A joining of predicates by a connective. -/
def Joins (make : List Predicate → Predicate) (connective : String) : Prop :=
  ∀ parts, (make parts).fragment = .connect connective (parts.map Predicate.fragment)

theorem joins_all : Joins .all "AND" := fun parts => by
  rw [Predicate.fragment, Predicate.fragments_eq_map]

theorem joins_any : Joins .any "OR" := fun parts => by
  rw [Predicate.fragment, Predicate.fragments_eq_map]

section Joins

variable {make : List Predicate → Predicate} {connective : String} {parts : List Predicate}

theorem Joins.fragment (joins : Joins make connective) (parts : List Predicate) :
    (Predicate.join? make parts).elim [] Predicate.fragment =
      Fragment.connect connective (parts.map Predicate.fragment) := by
  match parts with
  | [] => rfl
  | [part] => rfl
  | first :: second :: rest => exact joins _

theorem Joins.visible (joins : Joins make connective)
    (each : ∀ part ∈ parts, part.fragment.Visible) :
    ∀ predicate ∈ Predicate.join? make parts, predicate.fragment.Visible := by
  match parts with
  | [] => simp [Predicate.join?]
  | [part] => simpa [Predicate.join?] using each
  | first :: second :: rest =>
    rintro predicate ⟨⟩
    rw [joins]
    exact fun _ => by simp [Fragment.connect, Script.ofText]

end Joins

/-- The SQL of an outcome, nothing if it is left out. -/
def Outcome.fragment (outcome : Outcome) : Fragment :=
  outcome.predicate.elim [] Predicate.fragment

theorem Outcome.fragment_none {outcome : Outcome} (made : outcome.predicate = none) :
    outcome.fragment = [] := by
  rw [fragment, made, Option.elim_none]

theorem Outcome.fragment_some {outcome : Outcome} {predicate : Predicate}
    (made : outcome.predicate = some predicate) : outcome.fragment = predicate.fragment := by
  rw [fragment, made, Option.elim_some]

def Outcome.Clean (outcome : Outcome) : Prop :=
  ∀ report ∈ outcome.reports, report.problem.isWarning = true

/-- An outcome that a builder wrote: with the same reports, and if there is no error among them,
with its SQL and its values after those bound before. -/
structure Outcome.WrittenAs (outcome : Outcome) (bound : List Value)
    (result : Written × List Value) : Prop where
  reports : result.1.reports = outcome.reports
  visible : ∀ predicate ∈ outcome.predicate, predicate.fragment.Visible
  written : outcome.Clean → result.1.script = outcome.fragment.mark bound.length ∧
    result.2 = bound ++ outcome.fragment.arguments

namespace Outcome.WrittenAs

variable {outcome : Outcome} {bound : List Value} {result : Written × List Value}

theorem leftOut (reports : List Diagnostic) (bound : List Value) :
    WrittenAs ⟨none, reports⟩ bound (⟨[], reports⟩, bound) :=
  ⟨rfl, by simp, fun _ => ⟨rfl, (List.append_nil bound).symm⟩⟩

/-- After an error it does not matter what was bound. -/
theorem reported {problem : Problem} (error : problem.isWarning = false) (after : List Value) :
    WrittenAs (.reported problem) bound (.reported problem, after) where
  reports := rfl
  visible := by simp [Outcome.reported]
  written clean := by
    have warning : problem.isWarning = true := clean ⟨problem, none⟩ (List.mem_singleton.2 rfl)
    rw [error] at warning
    cases warning

theorem condition {fragment : Fragment} (visible : fragment.Visible) (bound : List Value) :
    WrittenAs ⟨some (.atom fragment), []⟩ bound
      (⟨fragment.mark bound.length, []⟩, bound ++ fragment.arguments) := by
  have same : Predicate.fragment (.atom fragment) = fragment := by rw [Predicate.fragment]
  refine ⟨rfl, ?_, fun _ => ?_⟩
  · rintro predicate ⟨⟩
    rwa [same]
  · rw [fragment_some rfl, same]
    exact ⟨rfl, rfl⟩

theorem after (writes : outcome.WrittenAs bound result) (reports : List Diagnostic) :
    (outcome.after reports).WrittenAs bound (result.1.after reports, result.2) where
  reports := congrArg (reports ++ ·) writes.reports
  visible := writes.visible
  written clean := writes.written fun report mem => clean report (List.mem_append_right _ mem)

theorem enclose (writes : outcome.WrittenAs bound result) {make : Predicate → Predicate}
    {opening : String}
    (made : ∀ inner,
      (make inner).fragment = .text opening :: inner.fragment ++ [Sql.Piece.text ")"])
    (nonempty : opening.toList ≠ []) :
    (outcome.map make).WrittenAs bound (result.1.enclose opening, result.2) where
  reports := (result.1.reports_enclose opening).trans writes.reports
  visible predicate mem := by
    obtain ⟨inner, _, rfl⟩ := Option.map_eq_some_iff.1 mem
    rw [made]
    exact fun _ => by simp [Script.ofText, nonempty]
  written clean := by
    obtain ⟨script, values⟩ := writes.written clean
    -- Nothing stays nothing: an empty text gets no brackets.
    cases predicate : outcome.predicate with
    | none =>
      have still : (outcome.map make).predicate = none := by rw [map, predicate, Option.map_none]
      rw [fragment_none predicate] at script values
      rw [fragment_none still, Written.enclose, script]
      exact ⟨script, values⟩
    | some inner =>
      have enclosed : (outcome.map make).predicate = some (make inner) := by
        rw [map, predicate, Option.map_some]
      have visible := writes.visible inner predicate bound.length
      rw [fragment_some predicate] at script values
      rw [fragment_some enclosed, made, Written.enclose, script, if_neg (by simpa using visible)]
      simp [values]

theorem negateIf (writes : outcome.WrittenAs bound result) (negated : Bool) :
    (outcome.negateIf negated).WrittenAs bound (result.1.negateIf negated, result.2) := by
  cases negated with
  | false => exact writes
  | true => exact writes.enclose (fun _ => by rw [Predicate.fragment]) (by decide)

end Outcome.WrittenAs

/-- Outcomes that a builder wrote one after the other. -/
inductive WrittenEach : List Outcome → List Value → List Written → List Value → Prop
  | nil {bound : List Value} : WrittenEach [] bound [] bound
  | cons {outcome : Outcome} {outcomes : List Outcome} {bound middle after : List Value}
      {written : Written} {rest : List Written} :
      outcome.WrittenAs bound (written, middle) → WrittenEach outcomes middle rest after →
      WrittenEach (outcome :: outcomes) bound (written :: rest) after

namespace WrittenEach

variable {outcomes : List Outcome} {bound after : List Value} {parts : List Written}

theorem reports (each : WrittenEach outcomes bound parts after) :
    parts.flatMap Written.reports = outcomes.flatMap Outcome.reports := by
  induction each with
  | nil => rfl
  | cons first _ ih => rw [List.flatMap_cons, List.flatMap_cons, first.reports, ih]

theorem visible (each : WrittenEach outcomes bound parts after) :
    ∀ predicate ∈ outcomes.filterMap Outcome.predicate, predicate.fragment.Visible := by
  induction each with
  | nil => simp
  | cons first _ ih =>
    intro predicate mem
    rw [List.filterMap_cons] at mem
    split at mem
    · exact ih predicate mem
    · next made =>
      rcases List.mem_cons.1 mem with rfl | later
      · exact first.visible predicate made
      · exact ih predicate later

/-- What is left out leaves no values. -/
theorem written (each : WrittenEach outcomes bound parts after)
    (clean : ∀ outcome ∈ outcomes, outcome.Clean) :
    let fragments := (outcomes.filterMap Outcome.predicate).map Predicate.fragment
    (parts.map Written.script).filter (!·.isEmpty) = Fragment.markEach bound.length fragments ∧
      after = bound ++ fragments.flatMap Fragment.arguments := by
  induction each with
  | nil => simp [Fragment.markEach]
  | @cons outcome outcomes bound middle after part rest first _ ih =>
    obtain ⟨cleanFirst, cleanRest⟩ := List.forall_mem_cons.1 clean
    -- The rest is numbered from the values that the first part has bound.
    obtain ⟨script, rfl⟩ := first.written cleanFirst
    obtain ⟨scripts, rfl⟩ := ih cleanRest
    dsimp only at script
    cases made : outcome.predicate with
    | none =>
      rw [Outcome.fragment_none made] at script scripts ⊢
      simpa [made, script] using scripts
    | some predicate =>
      have visible := first.visible predicate made bound.length
      rw [Outcome.fragment_some made] at script scripts ⊢
      simp [made, script, visible, scripts, Fragment.markEach]

/-- Joined outcomes are written as what is written for them, joined. -/
theorem join (each : WrittenEach outcomes bound parts after)
    {make : List Predicate → Predicate} {connective : String} (joins : Joins make connective) :
    (Outcome.join make outcomes).WrittenAs bound (.join connective parts, after) where
  reports := each.reports
  visible := joins.visible each.visible
  written clean := by
    have cleanEach : ∀ outcome ∈ outcomes, outcome.Clean := fun outcome mem report within =>
      clean report (List.mem_flatMap.2 ⟨outcome, mem, within⟩)
    obtain ⟨scripts, rfl⟩ := each.written cleanEach
    rw [Outcome.fragment, Outcome.join, joins.fragment, Fragment.mark_connect,
      Fragment.arguments_connect, Written.join, scripts]
    exact ⟨rfl, rfl⟩

end WrittenEach

/-- One condition for each fragment, joined. -/
theorem writtenAs_joined {make : List Predicate → Predicate} {connective : String}
    (joins : Joins make connective) {fragments : List Fragment} (reports : List Diagnostic)
    (visible : ∀ fragment ∈ fragments, fragment.Visible) (bound : List Value) :
    Outcome.WrittenAs ⟨Predicate.join? make (fragments.map .atom), reports⟩ bound
      (⟨.connect connective (Fragment.markEach bound.length fragments), reports⟩,
        bound ++ fragments.flatMap Fragment.arguments) := by
  have same : (fragments.map Predicate.atom).map Predicate.fragment = fragments := by
    rw [List.map_map]
    exact List.map_id'' (fun fragment => by rw [Function.comp, Predicate.fragment]) fragments
  refine ⟨rfl, joins.visible ?_, fun _ => ?_⟩
  · simpa [Predicate.fragment] using visible
  · rw [Outcome.fragment, joins.fragment, same, Fragment.mark_connect, Fragment.arguments_connect]
    exact ⟨rfl, rfl⟩

section MapM

variable {α β ε : Type} {f : α → Except ε β}

theorem mapM_cons_ok {a : α} {as : List α} {bs : List β} (ok : (a :: as).mapM f = .ok bs) :
    ∃ first rest, f a = .ok first ∧ as.mapM f = .ok rest ∧ bs = first :: rest := by
  rw [List.mapM_cons] at ok
  cases first : f a with
  | error reason =>
    rw [first] at ok
    cases ok
  | ok b =>
    cases rest : as.mapM f with
    | error reason =>
      rw [first, rest] at ok
      cases ok
    | ok others =>
      rw [first, rest] at ok
      cases ok
      exact ⟨b, others, rfl, rfl, rfl⟩

theorem mem_of_mapM_ok {as : List α} {bs : List β} (ok : as.mapM f = .ok bs) :
    ∀ b ∈ bs, ∃ a ∈ as, f a = .ok b := by
  induction as generalizing bs with
  | nil =>
    cases ok
    simp
  | cons a as ih =>
    obtain ⟨first, rest, same, others, rfl⟩ := mapM_cons_ok ok
    refine List.forall_mem_cons.2 ⟨⟨a, by simp, same⟩, fun b mem => ?_⟩
    obtain ⟨source, among, found⟩ := ih others b mem
    exact ⟨source, List.mem_cons_of_mem _ among, found⟩

end MapM

namespace Options

variable (options : Options)

/-- The conditions on fields are written one after the other. -/
theorem result_bindEach_ok {operator : Operator} {value : Value} {keys : List Key}
    {fragments : List Fragment}
    (ok : keys.mapM (fun key => options.table.condition key operator value) = .ok fragments)
    (bound : List Value) :
    (options.bindEach operator value keys).result bound =
      (.ok (Fragment.markEach bound.length fragments),
        bound ++ fragments.flatMap Fragment.arguments) := by
  induction keys generalizing fragments bound with
  | nil =>
    cases ok
    simp [bindEach, Fragment.markEach]
  | cons key keys ih =>
    obtain ⟨first, rest, condition, conditions, rfl⟩ := mapM_cons_ok ok
    have follows := options.table.follows_condition key operator value
    rw [condition] at follows
    simp [bindEach, follows bound, ih conditions, Fragment.markEach, Except.map]

theorem result_bindEach_error {operator : Operator} {value : Value} {keys : List Key}
    {reason : Schema.Refusal}
    (error : keys.mapM (fun key => options.table.condition key operator value) = .error reason)
    (bound : List Value) :
    ((options.bindEach operator value keys).result bound).1 = .error reason := by
  induction keys generalizing bound with
  | nil => cases error
  | cons key keys ih =>
    have follows := options.table.follows_condition key operator value
    rw [List.mapM_cons] at error
    cases first : options.table.condition key operator value with
    | error other =>
      rw [first] at follows error
      cases error
      simp [bindEach, follows bound]
    | ok fragment =>
      rw [first] at follows error
      cases rest : keys.mapM fun key => options.table.condition key operator value with
      | error other =>
        rw [rest] at error
        cases error
        simp [bindEach, follows bound, ih rest, Except.map]
      | ok fragments =>
        rw [rest] at error
        cases error

theorem conditions_written (keys : List Key) (operator : Operator) (value : Value)
    (bound : List Value) :
    (options.conditions keys operator value).WrittenAs bound
      ((options.bindConditions keys operator value).result bound) := by
  unfold conditions bindConditions
  cases found : keys.mapM fun key => options.table.condition key operator value with
  | error reason =>
    have refused := options.result_bindEach_error found bound
    simp only [Builder.result_bind, refused]
    exact .reported rfl _
  | ok fragments =>
    have visible : ∀ fragment ∈ fragments, fragment.Visible := fun fragment mem =>
      have ⟨_, _, ok⟩ := mem_of_mapM_ok found fragment mem
      (Schema.Table.condition_written ok).1
    simp only [Builder.result_bind, options.result_bindEach_ok found bound]
    cases operator.isNegative with
    | true => exact writtenAs_joined joins_all [] visible bound
    | false => exact writtenAs_joined joins_any [] visible bound

theorem comparison_written (skipResource : Bool) (ref : KeyRef) (test : Test)
    (bound : List Value) :
    (options.comparison skipResource ref test).WrittenAs bound
      ((options.bindComparison skipResource ref test).result bound) := by
  unfold comparison bindComparison
  dsimp only
  generalize (if skipResource = true then _ else _) = keys
  split
  · exact .leftOut _ bound
  · rw [Builder.result_map]
    refine Outcome.WrittenAs.after ?_ _
    cases operandOf options.bindings test with
    | dropped => exact .leftOut _ bound
    | emptyVariable name => exact .reported rfl _
    | value value => exact (options.conditions_written _ _ _ bound).after _

end Options

/-- The conditions of a call, as a builder wrote them unless there is an error. -/
structure ListedAs (listed : List Fragment × List Diagnostic) (bound : List Value)
    (result : (Option (List Script) × List Diagnostic) × List Value) : Prop where
  reports : result.1.2 = listed.2
  visible : ∀ fragment ∈ listed.1, fragment.Visible
  written : (∀ report ∈ listed.2, report.problem.isWarning = true) →
    result.1.1 = some (Fragment.markEach bound.length listed.1) ∧
      result.2 = bound ++ listed.1.flatMap Fragment.arguments

theorem ListedAs.nil (bound : List Value) : ListedAs ([], []) bound ((some [], []), bound) :=
  ⟨rfl, by simp, fun _ => ⟨rfl, (List.append_nil bound).symm⟩⟩

theorem ListedAs.cons {listed : List Fragment × List Diagnostic} {bound : List Value}
    {result : (Option (List Script) × List Diagnostic) × List Value} {fragment : Fragment}
    (visible : fragment.Visible) (rest : ListedAs listed (bound ++ fragment.arguments) result)
    (outside : List Diagnostic) :
    ListedAs (fragment :: listed.1, outside ++ listed.2) bound
      ((result.1.1.map (fragment.mark bound.length :: ·), outside ++ result.1.2), result.2) where
  reports := congrArg (outside ++ ·) rest.reports
  visible := List.forall_mem_cons.2 ⟨visible, rest.visible⟩
  written clean := by
    obtain ⟨scripts, values⟩ := rest.written fun report mem =>
      clean report (List.mem_append_right _ mem)
    simp [scripts, values, Fragment.markEach]

theorem ListedAs.error {bound after : List Value} {reports : List Diagnostic}
    (report : Diagnostic) (mem : report ∈ reports) (error : report.problem.isWarning = false) :
    ListedAs ([], reports) bound ((none, reports), after) where
  reports := rfl
  visible := by simp
  written clean := by
    have warning := clean report mem
    rw [error] at warning
    cases warning

theorem tokens_listed (token : Option Value) (keys : List Key) (bound : List Value) :
    ListedAs (tokenConditions token keys) bound ((bindTokens token keys).result bound) := by
  induction keys generalizing bound with
  | nil => exact .nil bound
  | cons key keys ih =>
    have refused : ∀ outside after,
        ListedAs ([], outside ++ [⟨.noTextParameter .hasToken, none⟩]) bound
          ((none, outside ++ [⟨.noTextParameter .hasToken, none⟩]), after) :=
      fun outside after => .error ⟨.noTextParameter .hasToken, none⟩ (by simp) rfl
    unfold tokenConditions bindTokens
    cases token with
    | none => exact refused _ _
    | some value =>
      cases value with
      | text text =>
        have visible : Fragment.Visible [.text ("hasToken(LOWER(" ++ key.name ++ "), LOWER("),
            .bound (.text text), .text "))"] := fun _ => by simp
        have written := ListedAs.cons visible (ih (bound ++ [Value.text text]))
          (if key.name = "body" then [] else [⟨.tokenOutsideBody .hasToken, none⟩])
        simpa using written
      | _ => exact refused _ _

theorem arrays_listed (function : Filter.Function) (value : Value) (keys : List Key)
    (bound : List Value) :
    ListedAs (arrayConditions function value keys) bound
      ((bindArrays function value keys).result bound) := by
  induction keys generalizing bound with
  | nil => exact .nil bound
  | cons key keys ih =>
    unfold arrayConditions bindArrays
    split
    · have built := Schema.Table.builds_enclosed
        (function.text ++ "(" ++ Schema.Table.bodyField key ++ ", ") value bound
      have visible : Fragment.Visible
          [.text (function.text ++ "(" ++ Schema.Table.bodyField key ++ ", "), .bound value,
            .text ")"] := fun _ => by simp
      have written := ListedAs.cons visible (ih (bound ++ [value])) []
      simpa [built] using written
    · exact .error ⟨.callOutsideBody function, none⟩ (by simp) rfl

theorem ListedAs.writtenAs {listed : List Fragment × List Diagnostic} {bound : List Value}
    {result : (Option (List Script) × List Diagnostic) × List Value}
    (lists : ListedAs listed bound result) (reports : List Diagnostic) :
    Outcome.WrittenAs ⟨Predicate.join? .any (listed.1.map .atom), reports ++ listed.2⟩ bound
      (⟨result.1.1.elim [] (.connect "OR"), reports ++ result.1.2⟩, result.2) := by
  have joined := writtenAs_joined joins_any (reports ++ listed.2) lists.visible bound
  refine ⟨congrArg (reports ++ ·) lists.reports, joined.visible, fun clean => ?_⟩
  obtain ⟨scripts, values⟩ := lists.written fun report mem =>
    clean report (List.mem_append_right _ mem)
  rw [scripts, values]
  exact joined.written clean

namespace Options

variable (options : Options)

theorem call_written (function : Filter.Function) (parameters : List Parameter)
    (bound : List Value) :
    (options.call function parameters).WrittenAs bound
      ((options.bindCall function parameters).result bound) := by
  unfold call bindCall
  split
  · exact .leftOut _ bound
  · match parameters with
    | [] => exact .reported rfl _
    | [one] => cases one <;> exact .reported rfl _
    | .value _ :: _ :: _ => exact .reported rfl _
    | .array _ :: _ :: _ => exact .reported rfl _
    | .key ref :: first :: more =>
      cases function with
      | hasToken => exact (tokens_listed _ _ bound).writtenAs _
      | has | hasAny | hasAll => exact (arrays_listed _ _ _ bound).writtenAs _

theorem search_written (text : String) (bound : List Value) :
    (options.search text).WrittenAs bound ((options.bindSearch text).result bound) := by
  unfold search bindSearch
  split
  · exact .leftOut _ bound
  · cases options.fullText with
    | none => exact .reported rfl _
    | some key =>
      have follows := options.table.follows_condition key .regexp (.text (Pattern.ofSearch text))
      dsimp only
      cases found : options.table.condition key .regexp (.text (Pattern.ofSearch text)) with
      | error reason =>
        rw [found] at follows
        rw [Builder.result_bind, follows bound]
        exact .reported rfl _
      | ok fragment =>
        rw [found] at follows
        rw [Builder.result_bind, follows bound]
        exact .condition (Schema.Table.condition_written found).1 bound

theorem atom_written (skipResource : Bool) (atom : Atom) (bound : List Value) :
    (options.atom skipResource atom).WrittenAs bound
      ((options.bindAtom skipResource atom).result bound) := by
  cases atom with
  | comparison ref test => exact options.comparison_written skipResource ref test bound
  | call function parameters => exact options.call_written function parameters bound
  | quotedText raw => exact options.search_written _ bound
  | freeText text => exact options.search_written _ bound
  | bareKey ref => exact options.search_written _ bound
  | bareValue literal => exact options.search_written _ bound

mutual

theorem term_written (skipResource : Bool) : ∀ (term : Term) (bound : List Value),
    (options.term skipResource term).WrittenAs bound
      ((options.bindTerm skipResource term).result bound)
  | .atom negated atom, bound => by
    rw [term, bindTerm, Builder.result_map]
    exact (options.atom_written skipResource atom bound).negateIf negated
  | .group negated branches, bound => by
    rw [term, bindTerm]
    have joined := (branches_written skipResource branches bound).join joins_any
    have bracketed : ∀ inner : Predicate,
        Predicate.fragment (.group inner) = .text "(" :: inner.fragment ++ [Sql.Piece.text ")"] :=
      fun _ => by rw [Predicate.fragment]
    exact (joined.enclose bracketed (by decide)).negateIf negated

theorem branches_written (skipResource : Bool) :
    ∀ (branches : List (List Term)) (bound : List Value),
      WrittenEach (options.branches skipResource branches) bound
        ((options.bindBranches skipResource branches).result bound).1
        ((options.bindBranches skipResource branches).result bound).2
  | [], bound => by
    rw [branches, bindBranches]
    exact .nil
  | terms :: rest, bound => by
    rw [branches, bindBranches]
    have joined := (terms_written skipResource terms bound).join joins_all
    exact .cons joined (branches_written skipResource rest _)

theorem terms_written (skipResource : Bool) : ∀ (terms : List Term) (bound : List Value),
    WrittenEach (options.terms skipResource terms) bound
      ((options.bindTerms skipResource terms).result bound).1
      ((options.bindTerms skipResource terms).result bound).2
  | [], bound => by
    rw [terms, bindTerms]
    exact .nil
  | term :: rest, bound => by
    rw [terms, bindTerms]
    exact .cons (term_written skipResource term bound) (terms_written skipResource rest _)

end

theorem query_written (skipResource : Bool) (query : Filter.Query) (bound : List Value) :
    (options.query skipResource query).WrittenAs bound
      ((options.bindQuery skipResource query).result bound) := by
  cases query with
  | none => exact .leftOut _ bound
  | some branches =>
    exact (options.branches_written skipResource branches bound).join joins_any

end Options

/-- What a builder writes of a whole filter without errors; a filter that asks for nothing is
true. -/
theorem Outcome.WrittenAs.clause {outcome : Outcome} {result : Written × List Value}
    (writes : outcome.WrittenAs [] result) (clean : outcome.Clean) :
    let fragment := outcome.predicate.elim (.ofText "true") Predicate.fragment
    (if result.1.script.isEmpty then .ofText "true" else result.1.script) = fragment.mark 0 ∧
      result.2 = fragment.arguments := by
  obtain ⟨script, values⟩ := writes.written clean
  cases made : outcome.predicate with
  | none =>
    rw [Outcome.fragment_none made] at script values
    rw [script, values]
    simp [Fragment.ofText]
  | some predicate =>
    have visible := writes.visible predicate made 0
    rw [Outcome.fragment_some made] at script values
    rw [script, values]
    simp [visible]

/-- A clause as a builder writes it. -/
def Clause.bound (clause : Clause) : BoundClause :=
  ⟨clause.fragment.mark 0, clause.arguments, clause.warnings⟩

/-- Compiling with a builder gives the same clauses and the same failures. -/
theorem compileBound_eq (options : Options) (text : String) :
    compileBound options text = (compile options text).map Clause.bound := by
  unfold compileBound compile
  dsimp only
  split
  · rfl
  · have writes := options.query_written (options.skipResource && !(Filter.read text).hasOr)
      (Filter.read text).query []
    generalize (options.bindQuery _ _).result [] = result at writes ⊢
    generalize options.query _ _ = outcome at writes ⊢
    rw [writes.reports]
    split
    · rfl
    · next none =>
      have clean : outcome.Clean := by simpa [Outcome.Clean] using none
      obtain ⟨script, values⟩ := writes.clause clean
      rw [script, values]
      rfl

end TelemetryQuery.Where
