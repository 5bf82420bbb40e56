import TelemetryQuery.Proofs.Filter.Detection
import TelemetryQuery.Proofs.Filter.Range
/- Comparisons that hold together: detection looks at them one after the other, so it finds what is
wrong with some first few of them. -/
namespace TelemetryQuery.Filter

mutual

/-- Whether the parts of a term hold together: no negation and no alternatives. -/
def Term.isConjunctive : Term → Bool
  | .atom negated _ => !negated
  | .group negated branches => !negated && conjunctiveBranches branches

def conjunctiveBranches : List (List Term) → Bool
  | [] => true
  | [terms] => conjunctiveTerms terms
  | _ => false

def conjunctiveTerms : List Term → Bool
  | [] => true
  | term :: rest => term.isConjunctive && conjunctiveTerms rest

end

/-- Whether a filter has neither negations nor alternatives. -/
def Query.isConjunctive (query : Query) : Bool :=
  query.all conjunctiveBranches

/-- What a test asks of its field, apart from being there. -/
def Test.constraint (test : Test) : Constraint :=
  ⟨test.operator, test.literals.map Literal.content⟩

/-- The constraints of an atom that holds. -/
def Atom.constraints : Atom → Constraints
  | .comparison key test => (constraintsOf false test).map (key.text, ·)
  | _ => []

/-- The constraints of atoms that hold together. -/
def constraintsIn (atoms : List Atom) : Constraints :=
  atoms.flatMap Atom.constraints

/-- The messages about the field of an atom, if it has one. -/
def Atom.messages (constraints : Constraints) (atom : Atom) : List String :=
  atom.field?.elim [] constraints.messages

/-- Detection in atoms that hold together. -/
def detectAtoms (constraints : Constraints) : List Atom → Constraints × List String
  | [] => (constraints, [])
  | atom :: rest =>
    let constraints := constraints ++ atom.constraints
    let (left, more) := detectAtoms constraints rest
    (left, atom.messages constraints ++ more)

theorem detectAtoms_append (constraints : Constraints) (first second : List Atom) :
    detectAtoms constraints (first ++ second) =
      let (between, found) := detectAtoms constraints first
      let (left, more) := detectAtoms between second
      (left, found ++ more) := by
  induction first generalizing constraints with
  | nil => rfl
  | cons atom first ih => simp only [List.cons_append, detectAtoms, ih, List.append_assoc]

mutual

/-- Brackets between terms that hold together make no difference. -/
theorem Term.detect_conjunctive (constraints : Constraints) : ∀ term : Term,
    term.isConjunctive = true → term.detect false constraints = detectAtoms constraints term.atoms
  | .atom true _, conjunctive => by cases conjunctive
  | .atom false atom, _ => by
    cases atom <;>
      simp [Term.detect, Term.atoms, detectAtoms, Atom.constraints, Atom.messages, Atom.field?]
  | .group true _, conjunctive => by cases conjunctive
  | .group false branches, conjunctive =>
    detectBranches_conjunctive constraints branches conjunctive

theorem detectBranches_conjunctive (constraints : Constraints) : ∀ branches : List (List Term),
    conjunctiveBranches branches = true →
      detectBranches false constraints branches = detectAtoms constraints (branchesAtoms branches)
  | [], _ => rfl
  | [terms], conjunctive => by
    rw [detectBranches, detectTerms_conjunctive constraints terms conjunctive, branchesAtoms,
      branchesAtoms, List.append_nil]
  | _ :: _ :: _, conjunctive => by cases conjunctive

theorem detectTerms_conjunctive (constraints : Constraints) : ∀ terms : List Term,
    conjunctiveTerms terms = true →
      detectTerms false constraints terms = detectAtoms constraints (termsAtoms terms)
  | [], _ => rfl
  | term :: rest, conjunctive => by
    rw [conjunctiveTerms, Bool.and_eq_true] at conjunctive
    rw [detectTerms, termsAtoms, detectAtoms_append,
      Term.detect_conjunctive constraints term conjunctive.1]
    simp only [detectTerms_conjunctive _ rest conjunctive.2]

end

/-- The contradictions of a filter whose atoms all hold together. -/
theorem Query.contradictions_conjunctive {query : Query}
    (conjunctive : query.isConjunctive = true) :
    query.contradictions = Text.distinct (detectAtoms [] query.atoms).2 := by
  cases query with
  | none => rfl
  | some branches =>
    rw [Query.contradictions, Option.elim_some, detectBranches_conjunctive [] branches conjunctive]
    rfl

theorem renderTerms_atoms (atoms : List Atom) :
    renderTerms (atoms.map (.atom false)) = atoms.map Atom.render := by
  induction atoms with
  | nil => rfl
  | cons atom atoms ih =>
    rw [List.map_cons, renderTerms, ih, List.map_cons, Term.render, negation, if_neg (by simp),
      String.empty_append]

theorem termsAtoms_atoms (atoms : List Atom) : termsAtoms (atoms.map (.atom false)) = atoms := by
  induction atoms with
  | nil => rfl
  | cons atom atoms ih => rw [List.map_cons, termsAtoms, ih, Term.atoms, List.singleton_append]

theorem conjunctiveTerms_atoms (atoms : List Atom) :
    conjunctiveTerms (atoms.map (.atom false)) = true := by
  induction atoms with
  | nil => rfl
  | cons atom atoms ih =>
    rw [List.map_cons, conjunctiveTerms, ih, Bool.and_true]
    rfl

theorem written_terms {atoms : List Atom} (nonempty : atoms ≠ [])
    (each : ∀ atom ∈ atoms, atom.Written) : (Phrase.terms (atoms.map (.atom false))).Written := by
  induction atoms with
  | nil => exact absurd rfl nonempty
  | cons atom rest ih =>
    obtain ⟨first, others⟩ := List.forall_mem_cons.1 each
    have term := first.term false
    cases rest with
    | nil => exact term.lone
    | cons second rest =>
      exact term.between (rfl : Kind.and.isOpen = false) (ih (List.cons_ne_nil _ _) others) .joined

/-- Detection in atoms that are written with `AND` between them. -/
theorem detect_joined_atoms {atoms : List Atom} (each : ∀ atom ∈ atoms, atom.Written) :
    detectContradictions (Text.joinWith " AND " (atoms.map Atom.render)) =
      .ok (Text.distinct (detectAtoms [] atoms).2) := by
  by_cases empty : atoms = []
  · subst empty
    exact detect_of_read parse_empty rfl
  · have alone := detect_joined_branches
      (List.forall_mem_singleton.2 (written_terms empty each))
    have text : (Phrase.terms (atoms.map (.atom false))).render =
        Text.joinWith " AND " (atoms.map Atom.render) := by
      rw [Phrase.render, renderTerms_atoms]
    have detected := detectTerms_conjunctive [] _ (conjunctiveTerms_atoms atoms)
    rw [termsAtoms_atoms] at detected
    simpa [Text.joinWith, text, detected] using alone

section Found

variable {constraints : Constraints} {atoms : List Atom} {message : String}

/-- What is found is found after some atom, in what was said of its field up to there. -/
theorem mem_detectAtoms : message ∈ (detectAtoms constraints atoms).2 ↔
    ∃ first last, first ++ [last] <+: atoms ∧
      message ∈ last.messages (constraints ++ constraintsIn (first ++ [last])) := by
  induction atoms generalizing constraints with
  | nil => simp [detectAtoms]
  | cons atom rest ih =>
    rw [detectAtoms]
    -- What follows starts with the constraints of this atom in force.
    simp only [List.mem_append, ih]
    constructor
    · rintro (now | ⟨first, last, initial, later⟩)
      · exact ⟨[], atom, by simp, by simpa [constraintsIn] using now⟩
      · refine ⟨atom :: first, last, (List.prefix_cons_inj atom).2 initial, ?_⟩
        simpa [constraintsIn] using later
    · rintro ⟨first, last, initial, found⟩
      cases first with
      | nil =>
        obtain ⟨rfl, -⟩ := List.cons_prefix_cons.1 initial
        exact .inl (by simpa [constraintsIn] using found)
      | cons other first =>
        obtain ⟨rfl, later⟩ := List.cons_prefix_cons.1 initial
        exact .inr ⟨first, last, later, by simpa [constraintsIn] using found⟩

/-- An atom says nothing of a field other than its own. -/
theorem Atom.on_constraints {atom : Atom} {field : String} (other : field ∉ atom.field?) :
    atom.constraints.on field = [] := by
  rw [Constraints.on_eq_nil]
  cases atom with
  | comparison key test =>
    have different : key.text ≠ field := by simpa [Atom.field?] using other
    simpa [Atom.constraints] using fun _ _ => different
  | _ => simp [Atom.constraints]

theorem Atom.on_comparison (key : KeyRef) (test : Test) :
    (Atom.comparison key test).constraints.on key.text = constraintsOf false test := by
  simp [Atom.constraints, Constraints.on, List.filter_map]

theorem constraintsIn_append (first second : List Atom) :
    constraintsIn (first ++ second) = constraintsIn first ++ constraintsIn second := by
  simp [constraintsIn]

theorem contradictions_nil : contradictions [] = [] := by
  decide +kernel

/-- What is wrong with any first few atoms is found, whatever field it is about: it is found at the
last of them that compares the field. -/
theorem mem_detectAtoms_initial : message ∈ (detectAtoms [] atoms).2 ↔
    ∃ first, first <+: atoms ∧ ∃ field, message ∈ (constraintsIn first).messages field := by
  rw [mem_detectAtoms]
  constructor
  · rintro ⟨first, last, initial, found⟩
    rw [List.nil_append, Atom.messages] at found
    cases compared : last.field? with
    | none => simp [compared] at found
    | some field => exact ⟨first ++ [last], initial, field, by simpa [compared] using found⟩
  · rintro ⟨first, initial, field, found⟩
    induction first using List.reverseRecOn with
    | nil =>
      obtain ⟨contradiction, among, -⟩ := Constraints.mem_messages.1 found
      exact absurd (contradictions_nil ▸ among) List.not_mem_nil
    | append_singleton first last ih =>
      by_cases own : field ∈ last.field?
      · refine ⟨first, last, initial, ?_⟩
        rw [Option.mem_def] at own
        simpa [Atom.messages, own] using found
      · refine ih ((List.prefix_append first [last]).trans initial) ?_
        have same :
            (constraintsIn (first ++ [last])).on field = (constraintsIn first).on field := by
          simp [constraintsIn, Atom.on_constraints own]
        rwa [Constraints.mem_messages, same, ← Constraints.mem_messages] at found

end Found

theorem mem_findIf {holds : Bool} {contradiction found : Contradiction} :
    found ∈ findIf holds contradiction ↔ holds = true ∧ found = contradiction := by
  cases holds <;> simp [findIf]

theorem emptyRange_mem_contradictions {constraints : List Constraint} :
    Contradiction.emptyRange ∈ contradictions constraints ↔
      infeasible (constraints.filter (·.operator.isOrder)) = true := by
  have implied : Contradiction.emptyRange ∉
      ((constraints.find? (·.operator.impliesExistence)).map fun c =>
        Contradiction.impliedExistence c.operator).toList := by
    simp
  simp only [contradictions, List.mem_append, List.mem_flatMap, mem_findIf, reduceCtorEq, and_false,
    exists_false, or_false, false_or, and_true, List.mem_ite_nil_right, implied]

/-- One of the ends of a text is an end of the other. -/
theorem suffix_or_suffix {a b u v : String} (same : a ++ u = b ++ v) :
    u.toList <:+ v.toList ∨ v.toList <:+ u.toList := by
  have whole : a.toList ++ u.toList = b.toList ++ v.toList := by
    simpa using congrArg String.toList same
  have first : u.toList <:+ b.toList ++ v.toList := ⟨a.toList, whole⟩
  exact List.suffix_or_suffix_of_suffix first (List.suffix_append _ _)

/-- No other message reads like one about an empty range: they end in different ways, whatever the
fields and the values in them are. -/
theorem message_eq_emptyRange {field other : String} {contradiction : Contradiction}
    (same : contradiction.message field = Contradiction.emptyRange.message other) :
    contradiction = .emptyRange ∧ field = other := by
  cases contradiction with
  | emptyRange =>
    have named := (String.append_left_inj _).1 ((String.append_left_inj _).1 same)
    exact ⟨rfl, (String.append_right_inj _).1 named⟩
  | _ =>
    simp only [Contradiction.message, ← String.append_assoc] at same
    exact absurd (suffix_or_suffix same) (by decide +kernel)

/-- The relation and the operand of an order comparison of a field. -/
def Atom.order? (field : String) : Atom → Option (Relation × Literal)
  | .comparison key (.relation relation value) =>
    if key.text = field ∧ relation.operator.isOrder = true then some (relation, value) else none
  | _ => none

/-- The order comparisons of a field. -/
def ordersOn (field : String) (atoms : List Atom) : List (Relation × Literal) :=
  atoms.filterMap (Atom.order? field)

def orderConstraint (order : Relation × Literal) : Constraint :=
  ⟨order.1.operator, [order.2.content]⟩

theorem constraintsOf_isOrder (test : Test) :
    (constraintsOf false test).filter (·.operator.isOrder) =
      [test.constraint].filter (·.operator.isOrder) := by
  have present : Operator.exist.isOrder = false := rfl
  rw [constraintsOf, List.filter_append]
  split <;> simp [Operator.negateIf, Test.constraint, present]

theorem Atom.constraints_isOrder (atom : Atom) (field : String) :
    (atom.constraints.on field).filter (·.operator.isOrder) =
      (atom.order? field).toList.map orderConstraint := by
  cases atom with
  | comparison key test =>
    by_cases own : key.text = field
    · subst own
      rw [Atom.on_comparison, constraintsOf_isOrder]
      cases test with
      | relation relation value => cases relation <;> simp [Atom.order?] <;> rfl
      | pattern negated matcher value => cases negated <;> cases matcher <;> rfl
      | between negated low high => cases negated <;> rfl
      | among negated operands => cases negated <;> rfl
      | present negated => cases negated <;> rfl
    · rw [Atom.on_constraints (by simpa [Atom.field?] using own)]
      cases test <;> simp [Atom.order?, own]
  | _ => rfl

/-- The order constraints on a field are its order comparisons. -/
theorem constraintsIn_isOrder (atoms : List Atom) (field : String) :
    ((constraintsIn atoms).on field).filter (·.operator.isOrder) =
      (ordersOn field atoms).map orderConstraint := by
  induction atoms with
  | nil => rfl
  | cons atom atoms ih =>
    have split : constraintsIn (atom :: atoms) = atom.constraints ++ constraintsIn atoms := rfl
    rw [split, Constraints.on_append, List.filter_append, ih, Atom.constraints_isOrder,
      ← List.map_append]
    cases found : atom.order? field <;> simp [ordersOn, found]

/-- The range of a field is reported as empty exactly if its order comparisons leave no number. -/
theorem emptyRange_mem_detectAtoms {atoms : List Atom} {field : String}
    (finite : ∀ order ∈ ordersOn field atoms, finiteText order.2.content = true) :
    Contradiction.emptyRange.message field ∈ (detectAtoms [] atoms).2 ↔
      infeasible ((ordersOn field atoms).map orderConstraint) = true := by
  rw [mem_detectAtoms_initial]
  constructor
  · rintro ⟨first, initial, other, found⟩
    obtain ⟨contradiction, among, same⟩ := Constraints.mem_messages.1 found
    obtain ⟨rfl, rfl⟩ := message_eq_emptyRange same
    rw [emptyRange_mem_contradictions, constraintsIn_isOrder] at among
    have within := (initial.filterMap (Atom.order? other)).map orderConstraint
    exact infeasible_of_subset (List.forall_mem_map.2 finite) within.subset among
  · intro empty
    refine ⟨atoms, List.prefix_rfl, field, Constraints.mem_messages.2 ⟨_, ?_, rfl⟩⟩
    rwa [emptyRange_mem_contradictions, constraintsIn_isOrder]

/-- Empty ranges are found exactly: if the order comparisons of a field in a filter without
negations and alternatives all have finite numbers for operands, then the filter has the message
about them if and only if no rational number meets them all. -/
theorem range_contradiction_iff {text : String} {query : Query} (parsed : parse text = .ok query)
    (conjunctive : query.isConjunctive = true) {field : String}
    (finite : ∀ order ∈ ordersOn field query.atoms,
      (Number.ofText? order.2.content).any Number.isFinite = true) :
    ∃ messages, detectContradictions text = .ok messages ∧
      ("Field '" ++ field ++ "' has contradictory range constraints" ∈ messages ↔
        ¬∃ x : ℚ, ∀ order ∈ ordersOn field query.atoms,
          ∀ number ∈ Number.ofText? order.2.content, order.1.operator.Admits number.value x) := by
  have numbers : ∀ order ∈ ordersOn field query.atoms, finiteText order.2.content = true := by
    intro order mem
    have found := finite order mem
    rw [finiteText]
    cases read : Number.ofText? order.2.content <;> simp_all
  refine ⟨query.contradictions, detect_of_read parsed rfl, ?_⟩
  have message : "Field '" ++ field ++ "' has contradictory range constraints" =
      Contradiction.emptyRange.message field := by
    have tail : "' has contradictory range constraints" =
        "' " ++ "has contradictory range constraints" := by decide +kernel
    rw [tail, ← String.append_assoc]
    rfl
  have stated : ∀ range ∈ (ordersOn field query.atoms).map orderConstraint,
      finiteText range.operand = true :=
    List.forall_mem_map.2 numbers
  rw [message, Query.contradictions_conjunctive conjunctive, Text.mem_distinct,
    emptyRange_mem_detectAtoms numbers, infeasible_iff stated]
  simp only [List.forall_mem_map]
  rfl

/-- Bounds in brackets, a quoted one, and other conditions between them: the last comparison leaves
out the one number that the others share. -/
theorem range_contradiction_iff_nested :
    let text := "a >= 5 AND (a <= '5.0' b = 2) a != 9 AND a < 5"
    let query := (read text).query
    parse text = .ok query ∧ query.isConjunctive = true ∧
      (∀ order ∈ ordersOn "a" query.atoms,
        (Number.ofText? order.2.content).any Number.isFinite = true) ∧
      query.contradictions = ["Field 'a' has contradictory range constraints"] ∧
      ∃ messages, detectContradictions text = .ok messages ∧
        ("Field '" ++ "a" ++ "' has contradictory range constraints" ∈ messages ↔
          ¬∃ x : ℚ, ∀ order ∈ ordersOn "a" query.atoms,
            ∀ number ∈ Number.ofText? order.2.content, order.1.operator.Admits number.value x) := by
  intro text query
  obtain ⟨accepted, conjunctive, finite, found⟩ :
      (read text).errors = [] ∧ query.isConjunctive = true ∧
      (∀ order ∈ ordersOn "a" query.atoms,
        (Number.ofText? order.2.content).any Number.isFinite = true) ∧
      query.contradictions = ["Field 'a' has contradictory range constraints"] := by
    decide +kernel
  have parsed : parse text = .ok query := parse_eq_ok.2 ⟨accepted, rfl⟩
  exact ⟨parsed, conjunctive, finite, found, range_contradiction_iff parsed conjunctive finite⟩

end TelemetryQuery.Filter
