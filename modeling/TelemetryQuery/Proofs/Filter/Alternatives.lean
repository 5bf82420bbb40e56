import Mathlib.Data.List.Sublists
import TelemetryQuery.Filter.Contradiction
import TelemetryQuery.Proofs.Filter.Printer
/- The alternatives of a filter, and contradictions within one of them. -/
namespace TelemetryQuery.Text

variable {field : String}

theorem mem_distinct {α : Type} [BEq α] [LawfulBEq α] {a : α} {items : List α} :
    a ∈ distinct items ↔ a ∈ items := by
  induction items with
  | nil => rfl
  | cons item items ih =>
    by_cases same : a = item
    · simp [distinct, same]
    · simp [distinct, same, ih]

end TelemetryQuery.Text

namespace TelemetryQuery.Filter

def Constraints.on (constraints : Constraints) (field : String) : List Constraint :=
  (constraints.filter (·.1 == field)).map (·.2)

namespace Constraints

@[simp]
theorem on_append (first second : Constraints) (field : String) :
    on (first ++ second) field = first.on field ++ second.on field := by
  simp [on]

theorem on_eq_nil {constraints : Constraints} :
    constraints.on field = [] ↔ ∀ constraint ∈ constraints, constraint.1 ≠ field := by
  simp [on, List.filter_eq_nil_iff]

theorem mem_messages {constraints : Constraints} {message : String} :
    message ∈ constraints.messages field ↔
      ∃ contradiction ∈ contradictions (constraints.on field),
        contradiction.message field = message :=
  List.mem_map

end Constraints

/-- The alternatives of two expressions that hold together. -/
def together (first second : List Constraints) : List Constraints :=
  first.flatMap fun constraints => second.map (constraints ++ ·)

theorem mem_together {first second : List Constraints} {constraints : Constraints} :
    constraints ∈ together first second ↔
      ∃ left ∈ first, ∃ right ∈ second, left ++ right = constraints := by
  simp [together]

/-- The alternatives of expressions that hold together, or one of which holds. -/
def combine (conjoined : Bool) (first second : List Constraints) : List Constraints :=
  if conjoined then together first second else first ++ second

/-- The alternatives of no expressions. -/
def neutral (conjoined : Bool) : List Constraints :=
  if conjoined then [[]] else []

mutual

/-- The alternatives of a term with negations pushed to its comparisons: each is a conjunction of
constraints, in the order of the text. Terms under a negation are alternatives of each other. -/
def Term.alternatives (negated : Bool) : Term → List Constraints
  | .atom flip (.comparison key test) =>
    [(constraintsOf (negated != flip) test).map (key.text, ·)]
  | .atom _ _ => [[]]
  | .group flip branches => alternativesBranches (negated != flip) branches

def alternativesBranches (negated : Bool) : List (List Term) → List Constraints
  | [] => neutral negated
  | terms :: rest =>
    combine negated (alternativesTerms negated terms) (alternativesBranches negated rest)

def alternativesTerms (negated : Bool) : List Term → List Constraints
  | [] => neutral (!negated)
  | term :: rest =>
    combine (!negated) (term.alternatives negated) (alternativesTerms negated rest)

end

/-- The disjunctive normal form of a filter; blank text has no constraints. -/
def Query.alternatives (query : Query) : List Constraints :=
  query.elim [[]] (alternativesBranches false)

def Atom.field? : Atom → Option String
  | .comparison key _ => some key.text
  | _ => none

/-- The fields that a part of an expression compares. -/
def fieldsOf (atoms : List Atom) : List String :=
  atoms.filterMap Atom.field?

/-- Whether a term leaves constraints on a field in force. -/
def Term.leaves (field : String) (negated : Bool) (term : Term) : Bool :=
  !((term.detect negated []).1.on field).isEmpty

mutual

/-- Whether the terms under a negation, which are alternatives, are kept apart: if one of them
leaves constraints on a field in force, then no later one compares the field. -/
def Term.separate (field : String) (negated : Bool) : Term → Bool
  | .atom _ _ => true
  | .group flip branches => separateBranches field (negated != flip) branches

def separateBranches (field : String) (negated : Bool) : List (List Term) → Bool
  | [] => true
  | terms :: rest => separateTerms field negated terms && separateBranches field negated rest

def separateTerms (field : String) (negated : Bool) : List Term → Bool
  | [] => true
  | term :: rest =>
    term.separate field negated && separateTerms field negated rest &&
      (!negated || !term.leaves field negated || !(fieldsOf (termsAtoms rest)).contains field)

end

def Query.separate (field : String) (query : Query) : Bool :=
  query.all (separateBranches field false)

namespace Phrase

def detect (negated : Bool) (constraints : Constraints) : Phrase → Constraints × List String
  | .term part => part.detect negated constraints
  | .terms parts => detectTerms negated constraints parts
  | .branches parts => detectBranches negated constraints parts

def alternatives (negated : Bool) : Phrase → List Constraints
  | .term part => part.alternatives negated
  | .terms parts => alternativesTerms negated parts
  | .branches parts => alternativesBranches negated parts

def separate (field : String) (negated : Bool) : Phrase → Bool
  | .term part => part.separate field negated
  | .terms parts => separateTerms field negated parts
  | .branches parts => separateBranches field negated parts

def fields (phrase : Phrase) : List String :=
  fieldsOf phrase.atoms

/-- The constraints that a part of an expression leaves in force. -/
def left (negated : Bool) (phrase : Phrase) : Constraints :=
  (phrase.detect negated []).1

/-- Constraints on a field that all belong to one alternative. -/
def Agrees (negated : Bool) (phrase : Phrase) (field : String) (constraints : Constraints) :
    Prop :=
  phrase.separate field negated = true → ∃ alternative ∈ phrase.alternatives negated,
    (constraints.on field).Sublist (alternative.on field)

/-- What detection does with a part of an expression: it adds constraints on fields of that part
to those in force, and what it finds comes from these and constraints of one alternative. -/
structure Located (negated : Bool) (phrase : Phrase) : Prop where
  adds : ∀ constraints,
    (phrase.detect negated constraints).1 = constraints ++ phrase.left negated
  named : ∀ field ∉ phrase.fields, (phrase.left negated).on field = []
  agrees : ∀ field, phrase.Agrees negated field (phrase.left negated)
  found : ∀ constraints, ∀ message ∈ (phrase.detect negated constraints).2,
    ∃ field ∈ phrase.fields, ∃ own, message ∈ (constraints ++ own).messages field ∧
      phrase.Agrees negated field own

/-- Parts of which detection and alternatives are the same. -/
theorem Located.congr {negated other : Bool} {phrase part : Phrase} (located : Located other part)
    (detect : ∀ constraints, phrase.detect negated constraints = part.detect other constraints)
    (fields : phrase.fields = part.fields)
    (agrees : phrase.Agrees negated = part.Agrees other) : Located negated phrase := by
  have left : phrase.left negated = part.left other := by
    rw [Phrase.left, Phrase.left, detect]
  constructor
  · simpa only [detect, left] using located.adds
  · simpa only [left, fields] using located.named
  · simpa only [left, agrees] using located.agrees
  · simpa only [detect, fields, agrees] using located.found

theorem located_atom (negated flip : Bool) (atom : Atom) :
    Located negated (.term (.atom flip atom)) := by
  cases atom with
  | comparison key test =>
    constructor
    · intro constraints
      simp [left, detect, Term.detect]
    · intro field outside
      simp only [fields, Phrase.atoms, Term.atoms, fieldsOf, Atom.field?, List.filterMap_cons,
        List.filterMap_nil, List.mem_singleton] at outside
      rw [Constraints.on_eq_nil]
      simp only [left, detect, Term.detect, List.nil_append, List.forall_mem_map]
      exact fun _ _ => Ne.symm outside
    · intro field _
      simp [left, detect, Term.detect, alternatives, Term.alternatives]
    · intro constraints message mem
      simp only [detect, Term.detect] at mem
      have named : key.text ∈ fields (.term (.atom flip (.comparison key test))) := by
        simp [fields, Phrase.atoms, Term.atoms, fieldsOf, Atom.field?]
      refine ⟨key.text, named, _, mem, fun _ => ?_⟩
      simp [alternatives, Term.alternatives]
  | call | quotedText | freeText | bareKey | bareValue =>
    constructor
    · intro constraints
      simp [left, detect, Term.detect]
    · intro field _
      rfl
    · intro field _
      simp [left, detect, Term.detect, alternatives, Term.alternatives]
    · intro constraints message mem
      simp [detect, Term.detect] at mem

theorem located_group {negated flip : Bool} {branches : Disjunction}
    (located : Located (negated != flip) (.branches branches)) :
    Located negated (.term (.group flip branches)) := by
  apply located.congr
  · intro constraints
    rw [detect, Term.detect, detect]
  · rw [fields, Phrase.atoms, Term.atoms, fields, Phrase.atoms]
  · funext field constraints
    rw [Agrees, separate, Term.separate, alternatives, Term.alternatives, Agrees, separate,
      alternatives]

theorem combine_neutral (conjoined : Bool) (alternatives : List Constraints) :
    combine conjoined alternatives (neutral conjoined) = alternatives := by
  cases conjoined <;> simp [combine, neutral, together]

theorem located_lone {negated : Bool} {term : Term} (located : Located negated (.term term)) :
    Located negated (.terms [term]) := by
  apply located.congr
  · intro constraints
    simp only [detect, detectTerms, List.append_nil]
  · simp [fields, Phrase.atoms, termsAtoms]
  · funext field constraints
    simp [Agrees, separate, separateTerms, alternatives, alternativesTerms, combine_neutral,
      termsAtoms, fieldsOf]

theorem located_only {negated : Bool} {terms : Conjunction}
    (located : Located negated (.terms terms)) : Located negated (.branches [terms]) := by
  apply located.congr
  · intro constraints
    simp only [detect, detectBranches]
  · simp [fields, Phrase.atoms, branchesAtoms]
  · funext field constraints
    simp [Agrees, separate, separateBranches, alternatives, alternativesBranches, combine_neutral]

section Cons

variable {negated : Bool} {term : Term} {terms : Conjunction}

theorem left_cons (rest : Located negated (.terms terms)) :
    left negated (.terms (term :: terms)) =
      left negated (.term term) ++ left negated (.terms terms) := by
  rw [left, detect, detectTerms]
  exact rest.adds _

theorem fields_cons :
    fields (.terms (term :: terms)) = fields (.term term) ++ fields (.terms terms) := by
  simp [fields, Phrase.atoms, termsAtoms, fieldsOf]

/-- Terms that hold together: constraints of the first and of the rest agree if both do. -/
theorem agrees_cons_even {first second : Constraints}
    (agreesFirst : Agrees false (.term term) field first)
    (agreesSecond : Agrees false (.terms terms) field second) :
    Agrees false (.terms (term :: terms)) field (first ++ second) := by
  intro apart
  simp only [separate, separateTerms, Bool.and_eq_true] at apart
  obtain ⟨one, among, within⟩ := agreesFirst apart.1.1
  obtain ⟨other, amongRest, withinRest⟩ := agreesSecond apart.1.2
  refine ⟨one ++ other, mem_together.2 ⟨one, among, other, amongRest, rfl⟩, ?_⟩
  simpa using within.append withinRest

/-- Terms that are alternatives: what agrees with one of them agrees with all. -/
theorem agrees_cons_first {own : Constraints} (agrees : Agrees true (.term term) field own) :
    Agrees true (.terms (term :: terms)) field own := by
  intro apart
  simp only [separate, separateTerms, Bool.and_eq_true] at apart
  obtain ⟨one, among, within⟩ := agrees apart.1.1
  exact ⟨one, List.mem_append_left _ among, within⟩

theorem agrees_cons_rest {own : Constraints} (agrees : Agrees true (.terms terms) field own) :
    Agrees true (.terms (term :: terms)) field own := by
  intro apart
  simp only [separate, separateTerms, Bool.and_eq_true] at apart
  obtain ⟨one, among, within⟩ := agrees apart.1.2
  exact ⟨one, List.mem_append_right _ among, within⟩

/-- Under a negation, if the first term leaves constraints on a field, the rest does not have it. -/
theorem separate_cons_odd (apart : separate field true (.terms (term :: terms)) = true) :
    (left true (.term term)).on field = [] ∨ field ∉ fields (.terms terms) := by
  simp only [separate, separateTerms, Bool.and_eq_true, Bool.not_true, Bool.false_or,
    Bool.or_eq_true, Term.leaves, Bool.not_not, List.isEmpty_iff, Bool.not_eq_true',
    List.contains_eq_mem, decide_eq_false_iff_not] at apart
  exact apart.2

theorem agrees_congr {phrase : Phrase} {own other : Constraints}
    (same : own.on field = other.on field) (agrees : phrase.Agrees negated field other) :
    phrase.Agrees negated field own := by
  intro apart
  rw [same]
  exact agrees apart

theorem located_cons (first : Located negated (.term term))
    (rest : Located negated (.terms terms)) :
    Located negated (.terms (term :: terms)) := by
  have detected : ∀ constraints, detect negated constraints (.terms (term :: terms)) =
      (constraints ++ left negated (.term term) ++ left negated (.terms terms),
        (detect negated constraints (.term term)).2 ++
          (detect negated (constraints ++ left negated (.term term)) (.terms terms)).2) := by
    intro constraints
    rw [← first.adds constraints, ← rest.adds]
    simp only [detect, detectTerms]
  constructor
  · intro constraints
    rw [detected, left_cons rest, List.append_assoc]
  · intro field outside
    rw [fields_cons, List.mem_append, not_or] at outside
    rw [left_cons rest, Constraints.on_append, first.named field outside.1,
      rest.named field outside.2, List.append_nil]
  · intro field
    rw [left_cons rest]
    cases negated with
    | false => exact agrees_cons_even (first.agrees field) (rest.agrees field)
    | true =>
      intro apart
      rcases separate_cons_odd apart with none | outside
      · exact agrees_cons_rest (agrees_congr (by simp [none]) (rest.agrees field)) apart
      · exact agrees_cons_first
          (agrees_congr (by simp [rest.named field outside]) (first.agrees field)) apart
  · intro constraints message mem
    rw [detected, List.mem_append] at mem
    rw [fields_cons]
    rcases mem with mem | mem
    · obtain ⟨field, among, own, found, agrees⟩ := first.found constraints message mem
      refine ⟨field, List.mem_append_left _ among, own, found, ?_⟩
      cases negated with
      | false =>
        have padded := agrees_cons_even agrees (rest.agrees field)
        intro apart
        obtain ⟨one, amongAll, within⟩ := padded apart
        refine ⟨one, amongAll, List.Sublist.trans ?_ within⟩
        rw [Constraints.on_append]
        exact List.sublist_append_left _ _
      | true => exact agrees_cons_first agrees
    · obtain ⟨field, among, own, found, agrees⟩ := rest.found _ message mem
      refine ⟨field, List.mem_append_right _ among, left negated (.term term) ++ own, ?_, ?_⟩
      · rwa [List.append_assoc] at found
      · cases negated with
        | false => exact agrees_cons_even (first.agrees field) agrees
        | true =>
          intro apart
          rcases separate_cons_odd apart with none | outside
          · exact agrees_cons_rest (agrees_congr (by simp [none]) agrees) apart
          · exact absurd among outside

end Cons

theorem detectBranches_messages (negated : Bool) (constraints : Constraints)
    (branches : Disjunction) :
    (detectBranches negated constraints branches).2 =
      detectAlternatives negated constraints branches := by
  match branches with
  | [] => simp only [detectBranches, detectAlternatives]
  | [only] => simp only [detectBranches, detectAlternatives, List.append_nil]
  | first :: second :: rest => simp only [detectBranches, detectAlternatives]

section Either

variable {negated : Bool} {terms : Conjunction} {branches : Disjunction}

theorem detect_either (several : branches ≠ []) (constraints : Constraints) :
    detect negated constraints (.branches (terms :: branches)) =
      (constraints, (detect negated constraints (.terms terms)).2 ++
        (detect negated constraints (.branches branches)).2) := by
  obtain ⟨second, rest, rfl⟩ := List.exists_cons_of_ne_nil several
  simp only [detect, detectBranches_messages]
  rw [detectBranches]
  simp

/-- What agrees with one of two alternatives, or two parts that hold together under a negation,
agrees with both as long as the other has alternatives at all. -/
theorem agrees_either_first {own other : Constraints}
    (agrees : Agrees negated (.terms terms) field own)
    (some : Agrees negated (.branches branches) field other) :
    Agrees negated (.branches (terms :: branches)) field own := by
  intro apart
  simp only [separate, separateBranches, Bool.and_eq_true] at apart
  obtain ⟨one, among, within⟩ := agrees apart.1
  cases negated with
  | false => exact ⟨one, List.mem_append_left _ among, within⟩
  | true =>
    obtain ⟨second, amongRest, -⟩ := some apart.2
    refine ⟨one ++ second, mem_together.2 ⟨one, among, second, amongRest, rfl⟩, ?_⟩
    rw [Constraints.on_append]
    exact within.trans (List.sublist_append_left _ _)

theorem agrees_either_rest {own other : Constraints}
    (some : Agrees negated (.terms terms) field other)
    (agrees : Agrees negated (.branches branches) field own) :
    Agrees negated (.branches (terms :: branches)) field own := by
  intro apart
  simp only [separate, separateBranches, Bool.and_eq_true] at apart
  obtain ⟨one, among, within⟩ := agrees apart.2
  cases negated with
  | false => exact ⟨one, List.mem_append_right _ among, within⟩
  | true =>
    obtain ⟨first, amongFirst, -⟩ := some apart.1
    refine ⟨first ++ one, mem_together.2 ⟨first, amongFirst, one, among, rfl⟩, ?_⟩
    rw [Constraints.on_append]
    exact within.trans (List.sublist_append_right _ _)

theorem fields_either :
    fields (.branches (terms :: branches)) =
      fields (.terms terms) ++ fields (.branches branches) := by
  simp [fields, Phrase.atoms, branchesAtoms, fieldsOf]

theorem located_either (first : Located negated (.terms terms))
    (rest : Located negated (.branches branches)) (several : branches ≠ []) :
    Located negated (.branches (terms :: branches)) := by
  have none : left negated (.branches (terms :: branches)) = [] := by
    rw [left, detect_either several]
  constructor
  · intro constraints
    rw [none, detect_either several, List.append_nil]
  · intro field _
    rw [none]
    rfl
  · intro field apart
    obtain ⟨one, among, -⟩ := agrees_either_first (first.agrees field) (rest.agrees field) apart
    rw [none]
    exact ⟨one, among, List.nil_sublist _⟩
  · intro constraints message mem
    rw [detect_either several, List.mem_append] at mem
    rw [fields_either]
    rcases mem with mem | mem
    · obtain ⟨field, among, own, found, agrees⟩ := first.found constraints message mem
      exact ⟨field, List.mem_append_left _ among, own, found,
        agrees_either_first agrees (rest.agrees field)⟩
    · obtain ⟨field, among, own, found, agrees⟩ := rest.found constraints message mem
      exact ⟨field, List.mem_append_right _ among, own, found,
        agrees_either_rest (first.agrees field) agrees⟩

end Either

theorem branches_ne_nil {branches : Disjunction} {words : List Word}
    (spell : Spells (.branches branches) words) : branches ≠ [] := by
  cases spell <;> exact List.cons_ne_nil _ _

/-- Detection in a filter that was read, by induction on what its words spell. -/
theorem located {phrase : Phrase} {words : List Word} (spell : Spells phrase words)
    (negated : Bool) : Located negated phrase := by
  induction spell generalizing negated with
  | atom => exact located_atom negated _ _
  | group _ ih => exact located_group (ih _)
  | lone _ ih => exact located_lone (ih negated)
  | joined _ _ ihFirst ihRest | adjacent _ _ ihFirst ihRest =>
    exact located_cons (ihFirst negated) (ihRest negated)
  | only _ ih => exact located_only (ih negated)
  | either _ rest ihFirst ihRest =>
    exact located_either (ihFirst negated) (ihRest negated) (branches_ne_nil rest)

end Phrase

/-- Every contradiction that is reported is one within an alternative of the filter: some of the
constraints of that alternative on one field, in the order of the text, contradict each other. The
terms of a conjunction under an odd number of negations are alternatives, and have to be separate:
if one of them leaves constraints on the field in force, then no later one compares it. -/
theorem contradiction_within_alternative {text message : String} {messages : List String}
    (detected : detectContradictions text = .ok messages) (found : message ∈ messages)
    (separate : ∀ field ∈ fieldsOf (read text).query.atoms, ∀ contradiction,
      Contradiction.message field contradiction = message →
      (read text).query.separate field = true) :
    ∃ field contradiction, Contradiction.message field contradiction = message ∧
      ∃ alternative ∈ (read text).query.alternatives, ∃ part,
        part.Sublist (alternative.on field) ∧ contradiction ∈ contradictions part := by
  obtain ⟨query, parsed, rfl⟩ :
      ∃ query, parse text = .ok query ∧ query.contradictions = messages := by
    unfold detectContradictions at detected
    cases parsed : parse text with
    | error errors =>
      rw [parsed] at detected
      cases detected
    | ok query =>
      rw [parsed] at detected
      exact ⟨query, rfl, Except.ok.inj detected⟩
  obtain ⟨words, spelled, -⟩ := parse_spelled parsed
  obtain ⟨-, same⟩ := parse_eq_ok.1 parsed
  rw [same] at separate ⊢
  cases query with
  | none => cases found
  | some branches =>
    have mem : message ∈ (Phrase.detect false [] (.branches branches)).2 :=
      Text.mem_distinct.1 found
    obtain ⟨field, compared, own, among, agrees⟩ :=
      (Phrase.located spelled false).found [] message mem
    rw [List.nil_append] at among
    obtain ⟨contradiction, within, rfl⟩ := Constraints.mem_messages.1 among
    obtain ⟨alternative, chosen, part⟩ := agrees (separate field compared contradiction rfl)
    exact ⟨field, contradiction, rfl, alternative, chosen, _, part, within⟩

theorem eq_ok_of_toOption {ε α : Type} {result : Except ε α} {value : α}
    (same : result.toOption = some value) : result = .ok value := by
  cases result with
  | error reason => cases same
  | ok found => exact congrArg Except.ok (Option.some.inj same)

/-- A negated conjunction whose terms have different fields, and alternatives after it. -/
theorem contradiction_within_alternative_negated :
    let text := "NOT (a != 1 AND b = 2) AND (a = 3 OR b IN (2, 4))"
    let message := "Field 'a' cannot equal multiple different values"
    detectContradictions text = .ok [message] ∧
    (∀ field ∈ fieldsOf (read text).query.atoms, (read text).query.separate field = true) ∧
    ∃ field contradiction, Contradiction.message field contradiction = message ∧
      ∃ alternative ∈ (read text).query.alternatives, ∃ part,
        part.Sublist (alternative.on field) ∧ contradiction ∈ contradictions part := by
  intro text message
  have detected : detectContradictions text = .ok [message] :=
    eq_ok_of_toOption (by decide +kernel)
  have separate : ∀ field ∈ fieldsOf (read text).query.atoms,
      (read text).query.separate field = true := by
    decide +kernel
  exact ⟨detected, separate, contradiction_within_alternative detected
    (List.mem_singleton.2 rfl) fun field compared _ _ => separate field compared⟩

/-- The terms of a negated conjunction are alternatives, and yet are reported together: one of the
two values is enough for a record. -/
theorem alternatives_mixed_under_negation :
    let text := "NOT (a != 1 AND a != 2)"
    detectContradictions text = .ok ["Field 'a' cannot equal multiple different values"] ∧
      ∀ alternative ∈ (read text).query.alternatives, ∀ field part,
        part.Sublist (alternative.on field) → contradictions part = [] := by
  intro text
  have known : (read text).query.alternatives =
      [[("a", ⟨.exist, []⟩), ("a", ⟨.equal, ["1"]⟩)],
        [("a", ⟨.exist, []⟩), ("a", ⟨.equal, ["2"]⟩)]] := by
    decide +kernel
  have clean : ∀ alternative ∈ (read text).query.alternatives,
      ∀ part ∈ (alternative.on "a").sublists, contradictions part = [] := by
    rw [known]
    decide +kernel
  have named : ∀ alternative ∈ (read text).query.alternatives,
      ∀ constraint ∈ alternative, constraint.1 = "a" := by
    rw [known]
    decide
  refine ⟨eq_ok_of_toOption (by decide +kernel), ?_⟩
  intro alternative among field part within
  by_cases same : field = "a"
  · rw [same] at within
    exact clean alternative among part (List.mem_sublists.2 within)
  · have none : alternative.on field = [] := by
      rw [Constraints.on_eq_nil]
      intro constraint inside
      rw [named alternative among constraint inside]
      exact Ne.symm same
    rw [none] at within
    rw [List.sublist_nil.1 within]
    decide +kernel

end TelemetryQuery.Filter
