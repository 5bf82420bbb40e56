import TelemetryQuery.Proofs.Filter.Pruning
import TelemetryQuery.Proofs.Filter.Tree
/- Variables that are texts or booleans, or select everything: replacing them takes terms out of a
filter and puts literals in the place of words, and the text that is written is read as that. -/
namespace TelemetryQuery.Filter

mutual

def Term.mapAtoms (f : Atom → Atom) : Term → Term
  | .atom negated atom => .atom negated (f atom)
  | .group negated branches => .group negated (mapBranches f branches)

def mapBranches (f : Atom → Atom) : List (List Term) → List (List Term)
  | [] => []
  | terms :: rest => mapTerms f terms :: mapBranches f rest

def mapTerms (f : Atom → Atom) : List Term → List Term
  | [] => []
  | term :: rest => term.mapAtoms f :: mapTerms f rest

end

def Query.mapAtoms (f : Atom → Atom) (query : Query) : Query :=
  query.map (mapBranches f)

section Mapped

variable {table : Variables} {drops : Atom → Bool} {f : Atom → Atom}

/-- Atoms that are dropped, or replaced by one that is changed. -/
def Replaces (table : Variables) (drops : Atom → Bool) (f : Atom → Atom) (atoms : List Atom) :
    Prop :=
  ∀ atom ∈ atoms, atom.replace table = if drops atom then none else some (f atom)

mutual

/-- A filter in which atoms are dropped or changed is what is left of it with the changed atoms. -/
theorem Term.replace_eq_map_prune : ∀ term : Term, Replaces table drops f term.atoms →
    term.replace table = (term.prune drops).map (Term.mapAtoms f)
  | .atom negated atom => by
    intro each
    rw [Term.replace, Term.prune, each atom (List.mem_singleton.2 rfl)]
    cases drops atom <;> rfl
  | .group negated branches => by
    intro each
    rw [Term.replace_group, Term.prune, replaceBranches_eq_map_prune branches each]
    cases pruneBranches drops branches <;> rfl

theorem replaceBranches_eq_map_prune : ∀ branches : List (List Term),
    Replaces table drops f (branchesAtoms branches) →
      replaceBranches table branches = mapBranches f (pruneBranches drops branches)
  | [] => fun _ => rfl
  | terms :: rest => by
    intro each
    obtain ⟨first, others⟩ := List.forall_mem_append.1 each
    rw [replaceBranches_cons, pruneBranches, replaceTerms_eq_map_prune terms first,
      replaceBranches_eq_map_prune rest others]
    cases pruneTerms drops terms <;> rfl

theorem replaceTerms_eq_map_prune : ∀ terms : List Term,
    Replaces table drops f (termsAtoms terms) →
      replaceTerms table terms = mapTerms f (pruneTerms drops terms)
  | [] => fun _ => rfl
  | term :: rest => by
    intro each
    obtain ⟨first, others⟩ := List.forall_mem_append.1 each
    rw [replaceTerms, pruneTerms, Term.replace_eq_map_prune term first,
      replaceTerms_eq_map_prune rest others]
    cases term.prune drops <;> rfl

end

theorem Query.replace_eq_map_prune {query : Query} (each : Replaces table drops f query.atoms) :
    Query.replace table query = Query.mapAtoms f (Query.prune drops query) := by
  cases query with
  | none => rfl
  | some branches =>
    rw [Query.replace_some, replaceBranches_eq_map_prune branches each, Query.prune,
      Option.bind_some]
    cases pruneBranches drops branches <;> rfl

end Mapped

section Written

variable {table : Variables}

/-- A literal of a text or a boolean is one token, and no key. -/
theorem Literal.ofValue_whole {value : Value} (scalar : isScalar value = true) :
    (Literal.ofValue value).word.Whole ∧ (Literal.ofValue value).word.kind ≠ .key := by
  cases value with
  | text text => exact ⟨fun _ => runAt_quote text, by simp [Literal.ofValue, Literal.word]⟩
  | bool truth =>
    refine ⟨fun _ => ?_, by simp [Literal.ofValue, Literal.word]⟩
    cases truth <;> decide +kernel
  | _ => cases scalar

theorem Literal.assign_whole (scalar : table.Scalar) {literal : Literal}
    (whole : literal.word.Whole) (shown : table.hides literal.content = false) :
    (literal.assign table).word.Whole := by
  rw [Literal.assign]
  cases found : table.ofWord? literal.content with
  | none => exact whole
  | some v => exact (Literal.ofValue_whole (scalar_of_shown scalar shown found)).1

theorem Literal.assign_kind (scalar : table.Scalar) {literal : Literal}
    (other : literal.word.kind ≠ .key) (shown : table.hides literal.content = false) :
    (literal.assign table).word.kind ≠ .key := by
  rw [Literal.assign]
  cases found : table.ofWord? literal.content with
  | none => exact other
  | some v => exact (Literal.ofValue_whole (scalar_of_shown scalar shown found)).2

theorem Test.literals_assign (test : Test) :
    (test.assign table).literals = test.literals.map (Literal.assign table) := by
  cases test with
  | among negated operands => cases operands <;> rfl
  | _ => rfl

theorem Test.assign_proper {test : Test} (proper : test.Proper) : (test.assign table).Proper := by
  cases test with
  | among negated operands =>
    cases operands with
    | paren values => simpa [assign, Operands.assign, Test.Proper, Operands.Proper] using proper
    | bracket values => simpa [assign, Operands.assign, Test.Proper, Operands.Proper] using proper
    | single value => trivial
  | _ => trivial

theorem Test.assign_whole (scalar : table.Scalar) {test : Test}
    (whole : ∀ word ∈ test.words, word.Whole)
    (shown : ∀ value ∈ test.literals, table.hides value.content = false) :
    ∀ word ∈ (test.assign table).words, word.Whole := by
  refine Test.whole fun value mem => ?_
  rw [Test.literals_assign] at mem
  obtain ⟨literal, among, rfl⟩ := List.mem_map.1 mem
  exact Literal.assign_whole scalar (whole _ (Test.literal_mem among)) (shown literal among)

theorem Parameter.assign_whole (scalar : table.Scalar) {parameter : Parameter}
    (whole : ∀ word ∈ parameter.words, word.Whole)
    (shown : ∀ word ∈ parameter.contents, table.hides word = false) :
    ∀ word ∈ (parameter.assign table).words, word.Whole := by
  cases parameter with
  | key ref =>
    rw [Parameter.assign]
    cases found : table.ofWord? ref.text with
    | none => exact whole
    | some v =>
      have visible := shown ref.text (by simp [contents])
      exact List.forall_mem_singleton.2
        (Literal.ofValue_whole (scalar_of_shown scalar visible found)).1
  | value literal =>
    exact List.forall_mem_singleton.2 (Literal.assign_whole scalar
      (whole literal.word (by simp [words])) (shown literal.content (by simp [contents])))
  | array values =>
    refine whole_bracketed rfl rfl (whole_literalWords fun value mem => ?_)
    obtain ⟨literal, among, rfl⟩ := List.mem_map.1 mem
    have within : literal.word ∈ literalWords values :=
      mem_commaWords (List.mem_map_of_mem among) (List.mem_singleton.2 rfl)
    exact Literal.assign_whole scalar (whole literal.word (by simp [words, within]))
      (shown literal.content (List.mem_map_of_mem among))

theorem Parameter.assign_proper (scalar : table.Scalar) {parameter : Parameter}
    (proper : parameter.Proper)
    (shown : ∀ word ∈ parameter.contents, table.hides word = false) :
    (parameter.assign table).Proper := by
  cases parameter with
  | key ref =>
    rw [Parameter.assign]
    cases found : table.ofWord? ref.text with
    | none => trivial
    | some v =>
      have visible := shown ref.text (by simp [contents])
      exact (Literal.ofValue_whole (scalar_of_shown scalar visible found)).2
  | value literal =>
    exact Literal.assign_kind scalar proper (shown literal.content (by simp [contents]))
  | array values => simpa [assign, Parameter.Proper] using proper

theorem Atom.search_written {value : Value} (scalar : isScalar value = true) :
    (Atom.search value).Written := by
  obtain ⟨whole, -⟩ := Literal.ofValue_whole scalar
  cases value with
  | text text => exact ⟨trivial, List.forall_mem_singleton.2 whole⟩
  | bool truth => exact ⟨.inr rfl, List.forall_mem_singleton.2 whole⟩
  | _ => cases scalar

/-- A token that starts with a dollar sign is a key or free text. -/
theorem kind_of_dollar {rest : List Char} {kind : Kind} {n : Nat}
    (run : runAt ('$' :: rest) = (.token kind, n)) : kind = .key ∨ kind = .freeText := by
  cases runAt_eq_token.1 run with
  | mark mark => cases mark
  | quoted quote _ => simp at quote
  | word _ _ _ word =>
    rcases wordAt_eq_token.1 word with ⟨-, length, positive, -⟩ | ⟨same, -, longer, -⟩ | ⟨same, -⟩
    · have none := keyLength_number (length ▸ positive) []
      rw [List.append_nil, keyLength, if_pos (by decide +kernel)] at none
      omega
    · left
      rw [same]
      cases found : Kind.ofKeyword? (String.ofList (('$' :: rest).take n)) with
      | none => rfl
      | some reserved =>
        have plain : ∀ word ∈ keywords, '$'.toLower ∉ word.toList := by decide
        refine absurd (Text.toLower_mem rfl ?_) (plain _ (Kind.ofKeyword?_some found).1)
        obtain ⟨m, rfl⟩ := Nat.exists_eq_succ_of_ne_zero (Nat.ne_zero_of_lt longer)
        simp
    · exact .inr same

theorem ofWord?_undollared {word : String} (other : ∀ rest, word.toList ≠ '$' :: rest) :
    table.ofWord? word = none := by
  unfold Variables.ofWord?
  split
  · next rest chars => exact absurd chars (other rest)
  · rfl

/-- A number or a boolean is no reference to a variable. -/
theorem ofWord?_bareValue {value : Literal} (written : (Atom.bareValue value).Written) :
    table.ofWord? value.content = none := by
  obtain ⟨kind, whole⟩ := written
  have run : value.word.Whole := whole _ (List.mem_singleton.2 rfl)
  refine ofWord?_undollared fun rest chars => ?_
  cases value with
  | number raw | bool raw =>
    have token := run rfl
    have same : raw.toList = '$' :: rest := chars
    simp only [Literal.word, same] at token
    rcases kind_of_dollar token with other | other <;> cases other
  | quoted raw | key raw => rcases kind with other | other <;> cases other

/-- Literals in the place of variables leave an atom that can be written. -/
theorem Atom.assign_written (scalar : table.Scalar) {atom : Atom} (written : atom.Written)
    (shown : atom.hidden table = false) : (atom.assign table).Written := by
  have visible : ∀ word ∈ atom.contents, table.hides word = false := by
    simpa [Atom.hidden] using shown
  obtain ⟨proper, whole⟩ := written
  cases atom with
  | comparison key test =>
    obtain ⟨wholeKey, wholeTest⟩ := List.forall_mem_cons.1 whole
    have operands := (List.forall_mem_cons.1 visible).2
    exact ⟨Test.assign_proper proper, List.forall_mem_cons.2 ⟨wholeKey,
      Test.assign_whole scalar wholeTest (by simpa using operands)⟩⟩
  | call function parameters =>
    have seen : ∀ parameter ∈ parameters, ∀ word ∈ parameter.contents, table.hides word = false :=
      fun parameter mem word within =>
        visible word (List.mem_flatMap.2 ⟨parameter, mem, within⟩)
    have wholes : ∀ parameter ∈ parameters, ∀ word ∈ parameter.words, word.Whole := by
      intro parameter mem word within
      have among := mem_commaWords (List.mem_map_of_mem mem) within
      exact whole word (by simp [words, among])
    refine ⟨⟨by simpa [assign] using proper.1, ?_⟩, ?_⟩
    · refine List.forall_mem_map.2 fun parameter mem => ?_
      exact Parameter.assign_proper scalar (proper.2 parameter mem) (seen parameter mem)
    · refine List.forall_mem_cons.2 ⟨Word.whole_fixed function.kind_isOpen, ?_⟩
      refine whole_bracketed rfl rfl (whole_commaWords ?_)
      rw [List.forall_mem_map, List.forall_mem_map]
      exact fun parameter mem =>
        Parameter.assign_whole scalar (wholes parameter mem) (seen parameter mem)
  | quotedText raw => exact ⟨proper, whole⟩
  | freeText text => exact ⟨proper, whole⟩
  | bareKey key =>
    rw [Atom.assign]
    cases found : table.ofWord? key.text with
    | none => exact ⟨proper, whole⟩
    | some v =>
      have seen := visible key.text (by simp [contents])
      exact search_written (scalar_of_shown scalar seen found)
  | bareValue value =>
    rw [Atom.assign, Literal.assign, ofWord?_bareValue ⟨proper, whole⟩]
    exact ⟨proper, whole⟩

end Written

theorem parse_empty : parse "" = .ok none := by
  have blank : Query.Spelled none [] := rfl
  obtain ⟨found, read, same⟩ := parse_of_writes Writes.empty blank
  rw [read, Option.map_eq_none_iff.1 same]

/-- Replacing variables that are texts or booleans, or select everything, is pruning and
substitution. The text that is left is blank if no term is, and else is read as the filter without
the terms that a variable which selects everything hides, with the literals of the other variables
in the place of the words that refer to them; lists are written in round brackets, and the places of
keys may differ. A variable that is the key of a comparison has to select everything. -/
theorem parse_replaceVariables_scalar {table : Variables} {text : String} {query : Query}
    (parsed : parse text = .ok query) (scalar : table.Scalar)
    (keyed : ∀ atom ∈ query.atoms, atom.keyHidden table = true) :
    let kept := Query.prune (Atom.hidden table) query
    ∃ replaced found, replaceVariables table text = .ok replaced ∧
      (replaced = "" ↔ kept = none) ∧ parse replaced = .ok found ∧
      Query.unplaced found =
        Query.unplaced (Query.mapAtoms (fun atom => (atom.assign table).rounded) kept) := by
  intro kept
  have each : Replaces table (Atom.hidden table) (fun atom => (atom.assign table).rounded)
      query.atoms := fun atom mem => Atom.replace_assigned scalar (keyed atom mem)
  have written : ∀ atom ∈ query.atoms, ∀ left ∈ atom.replace table, left.Written := by
    intro atom mem left replaced
    rw [each atom mem] at replaced
    cases hidden : atom.hidden table with
    | true => simp [hidden] at replaced
    | false =>
      obtain rfl : (atom.assign table).rounded = left := by simpa [hidden] using replaced
      exact (Atom.assign_written scalar (parse_atoms_written parsed atom mem) hidden).rounded
  obtain ⟨replaced, found, shown, read, same⟩ := parse_replaced parsed written
  rw [Query.replace_eq_map_prune each] at same
  refine ⟨replaced, found, shown, ⟨?_, ?_⟩, read, same⟩
  · rintro rfl
    rw [parse_empty] at read
    cases read
    simpa [Query.unplaced, Query.mapAtoms] using same.symm
  · intro nothing
    rw [replaceVariables, parsed] at shown
    have text : Query.render (Query.replace table query) = replaced := Except.ok.inj shown
    rw [← text, Query.replace_eq_map_prune each, show Query.prune _ query = none from nothing]
    rfl

/-- Terms, a list and a group with variables: one that selects everything, a text with a quote in it
and a boolean. -/
theorem parse_replaceVariables_scalar_mixed :
    let table : Variables := [("all", ⟨.dynamic, .list [.text "__all__"]⟩),
      ("$v", ⟨.query, .text "it's"⟩), ("t", ⟨.custom, .bool true⟩)]
    let text := "NOT (a = $all OR b IN ['$v', 2] $all = 1) has(c, $t) ($all) $v '$v' d > $u"
    let shown := "NOT (b IN ('it\\'s', 2)) AND has(c, true) AND 'it\\'s' AND '$v' AND d > $u"
    parse text = .ok (read text).query ∧ table.Scalar ∧
    (∀ atom ∈ (read text).query.atoms, atom.keyHidden table = true) ∧
    replaceVariables table text = .ok shown ∧
    let kept := Query.prune (Atom.hidden table) (read text).query
    ∃ replaced found, replaceVariables table text = .ok replaced ∧
      (replaced = "" ↔ kept = none) ∧ parse replaced = .ok found ∧
      Query.unplaced found =
        Query.unplaced (Query.mapAtoms (fun atom => (atom.assign table).rounded) kept) := by
  intro table text shown
  obtain ⟨accepted, keyed, rendered⟩ : (read text).errors = [] ∧
      (∀ atom ∈ (read text).query.atoms, atom.keyHidden table = true) ∧
      Query.render (Query.replace table (read text).query) = shown := by decide +kernel
  have parsed : parse text = .ok (read text).query := parse_eq_ok.2 ⟨accepted, rfl⟩
  have scalar : table.Scalar := by
    have each : ∀ entry ∈ table, entry.2.selectsAll = true ∨ isScalar entry.2.value = true := by
      decide
    exact fun name v bound => each (name, v) (mem_of_lookup bound)
  have replaced : replaceVariables table text = .ok shown := by
    rw [replaceVariables, parsed]
    exact congrArg Except.ok rendered
  exact ⟨parsed, scalar, keyed, replaced, parse_replaceVariables_scalar parsed scalar keyed⟩

end TelemetryQuery.Filter
