import TelemetryQuery.Filter.Variable
import TelemetryQuery.Proofs.Filter.Printer
/- Terms taken out of a filter. Variables that all select everything do nothing else to it. -/
namespace TelemetryQuery.Filter

variable {atom : Atom} {terms : Conjunction} {query : Query} {text : String} {v : Variable}

/-- A list, unless nothing is in it. -/
def nonempty? {α : Type} (items : List α) : Option (List α) :=
  if items.isEmpty then none else some items

mutual

/-- What is left of a term without some of its atoms. An atom goes with its negation, and parts
that are left without terms go as well. -/
def Term.prune (drops : Atom → Bool) : Term → Option Term
  | .atom negated atom => if drops atom then none else some (.atom negated atom)
  | .group negated branches => (nonempty? (pruneBranches drops branches)).map (.group negated)

def pruneBranches (drops : Atom → Bool) : List (List Term) → List (List Term)
  | [] => []
  | terms :: rest => (nonempty? (pruneTerms drops terms)).toList ++ pruneBranches drops rest

def pruneTerms (drops : Atom → Bool) : List Term → List Term
  | [] => []
  | term :: rest => (term.prune drops).toList ++ pruneTerms drops rest

end

def Query.prune (drops : Atom → Bool) (query : Query) : Query :=
  query.bind fun branches => nonempty? (pruneBranches drops branches)

theorem nonempty?_cases {α : Type} (items : List α) :
    items = [] ∧ nonempty? items = none ∨ items ≠ [] ∧ nonempty? items = some items := by
  cases items with
  | nil => exact .inl ⟨rfl, rfl⟩
  | cons first rest => exact .inr ⟨by simp, rfl⟩

/-- Whether a word refers to a variable. -/
def Variables.refers (table : Variables) (word : String) : Bool :=
  (table.ofWord? word).isSome

def Variables.SelectAll (table : Variables) : Prop :=
  ∀ entry ∈ table, entry.2.selectsAll = true

/-- A list in round brackets, as replacing variables writes it. -/
def Operands.rounded : Operands → Operands
  | bracket values => paren values
  | operands => operands

def Test.rounded : Test → Test
  | among negated operands => among negated operands.rounded
  | test => test

def Atom.rounded : Atom → Atom
  | comparison key test => comparison key test.rounded
  | atom => atom

/-- The words of a parameter that may refer to variables. -/
def Parameter.contents : Parameter → List String
  | key ref => [ref.text]
  | value literal => [literal.content]
  | array values => values.map Literal.content

/-- The words of an atom that may refer to variables. -/
def Atom.contents : Atom → List String
  | comparison key test => key.text :: test.literals.map Literal.content
  | call _ parameters => parameters.flatMap Parameter.contents
  | bareKey key => [key.text]
  | bareValue value => [value.content]
  | _ => []

/-- Whether a word refers to a variable that selects everything. -/
def Variables.hides (table : Variables) (word : String) : Bool :=
  (table.ofWord? word).any Variable.selectsAll

/-- Whether one of the words of an atom refers to a variable that selects everything. -/
def Atom.hidden (table : Variables) (atom : Atom) : Bool :=
  atom.contents.any table.hides

/-- A literal, or the one of the variable that it refers to. -/
def Literal.assign (table : Variables) (literal : Literal) : Literal :=
  (table.ofWord? literal.content).elim literal fun v => .ofValue v.value

def Operands.assign (table : Variables) : Operands → Operands
  | paren values => paren (values.map (Literal.assign table))
  | bracket values => bracket (values.map (Literal.assign table))
  | single value => single (value.assign table)

def Test.assign (table : Variables) : Test → Test
  | relation op value => relation op (value.assign table)
  | pattern negated matcher value => pattern negated matcher (value.assign table)
  | between negated low high => between negated (low.assign table) (high.assign table)
  | among negated operands => among negated (operands.assign table)
  | present negated => present negated

def Parameter.assign (table : Variables) : Parameter → Parameter
  | key ref => (table.ofWord? ref.text).elim (key ref) fun v => value (.ofValue v.value)
  | value literal => value (literal.assign table)
  | array values => array (values.map (Literal.assign table))

/-- The search for a value; one for a text is written as the quoted text. -/
def Atom.search : Value → Atom
  | .text value => quotedText (Text.quote value)
  | value => bareValue (.ofValue value)

/-- An atom with literals in the place of the words that refer to variables. The key of a comparison
and the search for a text stay as they are. -/
def Atom.assign (table : Variables) : Atom → Atom
  | comparison key test => comparison key (test.assign table)
  | call function parameters => call function (parameters.map (Parameter.assign table))
  | bareKey key => (table.ofWord? key.text).elim (bareKey key) fun v => search v.value
  | bareValue value => bareValue (value.assign table)
  | atom => atom

/-- Whether a value is a text or a boolean. -/
def isScalar : Value → Bool
  | .text _ => true
  | .bool _ => true
  | _ => false

/-- Whether each variable selects everything or is a text or a boolean. -/
def Variables.Scalar (table : Variables) : Prop :=
  ∀ name v, table.lookup name = some v → v.selectsAll = true ∨ isScalar v.value = true

section Replacement

variable {table : Variables}

theorem mem_of_lookup {name : String} (found : table.lookup name = some v) : (name, v) ∈ table := by
  obtain ⟨before, after, rfl, -⟩ := List.lookup_eq_some_iff.1 found
  simp

theorem lookup_of_ofWord? {word : String} (found : table.ofWord? word = some v) :
    ∃ name, table.lookup name = some v := by
  unfold Variables.ofWord? at found
  split at found
  · cases direct : table.lookup word with
    | none =>
      rw [direct] at found
      exact ⟨_, found⟩
    | some w =>
      rw [direct] at found
      exact ⟨word, direct.trans found⟩
  · cases found

/-- A list whose items are kept or dropped is dropped with any of them. -/
theorem mapM_eq {α β : Type} {f : α → Option β} {drops : α → Bool} {g : α → β}
    (each : ∀ a, f a = if drops a then none else some (g a)) (items : List α) :
    items.mapM f = if items.any drops then none else some (items.map g) := by
  induction items with
  | nil => rfl
  | cons item items ih =>
    rw [List.mapM_cons, each, ih, List.any_cons, List.map_cons]
    cases drops item with
    | true => rfl
    | false => cases items.any drops <;> rfl

theorem substitution_eq (word : String) :
    table.substitution word =
      if table.hides word then .dropped
      else (table.ofWord? word).elim .kept fun v => .value v.value := by
  unfold Variables.substitution Variables.hides
  cases table.ofWord? word with
  | none => rfl
  | some v => cases selects : v.selectsAll <;> simp [selects]

theorem Literal.replace_eq (literal : Literal) :
    literal.replace table =
      if table.hides literal.content then none else some (literal.assign table) := by
  rw [Literal.replace, substitution_eq, Literal.assign]
  cases table.hides literal.content with
  | true => rfl
  | false => cases table.ofWord? literal.content <;> rfl

/-- A variable that selects not everything has a text or a boolean. -/
theorem scalar_of_shown (scalar : table.Scalar) {word : String} (shown : table.hides word = false)
    (found : table.ofWord? word = some v) : isScalar v.value = true := by
  obtain ⟨name, bound⟩ := lookup_of_ofWord? found
  rcases scalar name v bound with selects | literal
  · simp [Variables.hides, found, selects] at shown
  · exact literal

theorem spliceAll_eq (scalar : table.Scalar) (values : List Literal) :
    spliceAll table values =
      if (values.map Literal.content).any table.hides then none
      else some (values.map (Literal.assign table)) := by
  have each (value : Literal) : value.splice table =
      if table.hides value.content then none else some [value.assign table] := by
    rw [Literal.splice, substitution_eq, Literal.assign]
    cases shown : table.hides value.content with
    | true => rfl
    | false =>
      cases found : table.ofWord? value.content with
      | none => rfl
      | some v =>
        have literal := scalar_of_shown scalar shown found
        obtain ⟨kind, value⟩ := v
        cases value with
        | text | bool => rfl
        | _ => cases literal
  rw [spliceAll, mapM_eq each, List.any_map]
  change Option.map _ (if values.any (table.hides ∘ Literal.content) then _ else _) = _
  cases values.any (table.hides ∘ Literal.content) with
  | true => rfl
  | false => simp [← List.flatMap_def, ← List.map_eq_flatMap]

theorem Operands.replace_eq (scalar : table.Scalar) (operands : Operands) :
    operands.replace table = if (operands.values.map Literal.content).any table.hides then none
      else some (operands.assign table).rounded := by
  cases operands with
  | paren values =>
    rw [Operands.replace, spliceAll_eq scalar, Operands.values]
    cases (values.map Literal.content).any table.hides <;> rfl
  | bracket values =>
    rw [Operands.replace, spliceAll_eq scalar, Operands.values]
    cases (values.map Literal.content).any table.hides <;> rfl
  | single value =>
    simp only [Operands.replace, substitution_eq, Literal.replace_eq, Operands.values,
      List.map_cons, List.map_nil, List.any_cons, List.any_nil, Bool.or_false]
    cases shown : table.hides value.content with
    | true => rfl
    | false =>
      cases found : table.ofWord? value.content with
      | none => rfl
      | some v =>
        have literal := scalar_of_shown scalar shown found
        obtain ⟨kind, value⟩ := v
        cases value with
        | text | bool => rfl
        | _ => cases literal

theorem Test.replace_eq (scalar : table.Scalar) (test : Test) :
    test.replace table = if (test.literals.map Literal.content).any table.hides then none
      else some (test.assign table).rounded := by
  cases test with
  | relation op value =>
    simp only [Test.replace, Literal.replace_eq, Test.literals, List.map_cons, List.map_nil,
      List.any_cons, List.any_nil, Bool.or_false]
    cases table.hides value.content <;> rfl
  | pattern negated matcher value =>
    simp only [Test.replace, Literal.replace_eq, Test.literals, List.map_cons, List.map_nil,
      List.any_cons, List.any_nil, Bool.or_false]
    cases table.hides value.content <;> rfl
  | between negated low high =>
    simp only [Test.replace, Literal.replace_eq, Test.literals, List.map_cons, List.map_nil,
      List.any_cons, List.any_nil, Bool.or_false]
    cases table.hides low.content with
    | true => rfl
    | false => cases table.hides high.content <;> rfl
  | among negated operands =>
    rw [Test.replace, Operands.replace_eq scalar, Test.literals]
    cases (operands.values.map Literal.content).any table.hides <;> rfl
  | present negated => rfl

theorem Parameter.replace_eq (scalar : table.Scalar) (parameter : Parameter) :
    parameter.replace table =
      if parameter.contents.any table.hides then none else some (parameter.assign table) := by
  cases parameter with
  | key ref =>
    simp only [Parameter.replace, substitution_eq, Parameter.contents, List.any_cons,
      List.any_nil, Bool.or_false]
    cases table.hides ref.text with
    | true => rfl
    | false =>
      rw [Parameter.assign]
      cases table.ofWord? ref.text <;> rfl
  | value literal =>
    simp only [Parameter.replace, Literal.replace_eq, Parameter.contents, List.any_cons,
      List.any_nil, Bool.or_false]
    cases table.hides literal.content <;> rfl
  | array values =>
    rw [Parameter.replace, spliceAll_eq scalar, Parameter.contents]
    cases (values.map Literal.content).any table.hides <;> rfl

/-- Whether the key of a comparison, if it refers to a variable, hides the comparison. -/
def Atom.keyHidden (table : Variables) : Atom → Bool
  | comparison key _ => (table.ofWord? key.text).all Variable.selectsAll
  | _ => true

/-- An atom is dropped if one of its words refers to a variable that selects everything, and else
has literals in the place of variables and loses the brackets of its list. -/
theorem Atom.replace_assigned (scalar : table.Scalar) (keyed : atom.keyHidden table = true) :
    atom.replace table =
      if atom.hidden table then none else some (atom.assign table).rounded := by
  rw [Atom.hidden]
  cases atom with
  | comparison key test =>
    have replaced : key.replace table = if table.hides key.text then none else some key := by
      rw [KeyRef.replace, substitution_eq]
      cases found : table.ofWord? key.text with
      | none => simp [Variables.hides, found]
      | some v =>
        have selects : v.selectsAll = true := by simpa [keyHidden, found] using keyed
        simp [Variables.hides, found, selects]
    rw [Atom.replace, replaced, Test.replace_eq scalar, Atom.contents, List.any_cons]
    cases table.hides key.text with
    | true => rfl
    | false => cases (test.literals.map Literal.content).any table.hides <;> rfl
  | call function parameters =>
    rw [Atom.replace, mapM_eq (Parameter.replace_eq scalar), Atom.contents, List.any_flatMap]
    cases parameters.any fun parameter => parameter.contents.any table.hides <;> rfl
  | quotedText raw => rfl
  | freeText text => rfl
  | bareKey key =>
    simp only [Atom.replace, substitution_eq, Atom.contents, List.any_cons, List.any_nil,
      Bool.or_false, Atom.assign]
    cases table.hides key.text with
    | true => rfl
    | false =>
      cases table.ofWord? key.text with
      | none => rfl
      | some v =>
        obtain ⟨kind, value⟩ := v
        cases value <;> rfl
  | bareValue value =>
    simp only [Atom.replace, Literal.replace_eq, Atom.contents, List.any_cons, List.any_nil,
      Bool.or_false]
    cases table.hides value.content <;> rfl

section SelectAll

theorem selectsAll_of_lookup (all : table.SelectAll) {name : String}
    (found : table.lookup name = some v) : v.selectsAll = true :=
  all (name, v) (mem_of_lookup found)

theorem hides_eq_refers (all : table.SelectAll) (word : String) :
    table.hides word = table.refers word := by
  unfold Variables.hides Variables.refers
  cases found : table.ofWord? word with
  | none => rfl
  | some v =>
    obtain ⟨name, bound⟩ := lookup_of_ofWord? found
    exact selectsAll_of_lookup all bound

theorem ofWord?_of_not_refers {word : String} (unbound : table.refers word = false) :
    table.ofWord? word = none := by
  simpa [Variables.refers] using unbound

theorem Literal.assign_eq {literal : Literal} (unbound : table.refers literal.content = false) :
    literal.assign table = literal := by
  rw [Literal.assign, ofWord?_of_not_refers unbound]
  rfl

theorem assignAll_eq {values : List Literal}
    (unbound : ∀ value ∈ values, table.refers value.content = false) :
    values.map (Literal.assign table) = values :=
  (List.map_congr_left fun value mem => Literal.assign_eq (unbound value mem)).trans
    (List.map_id' values)

theorem Test.assign_eq {test : Test}
    (unbound : ∀ value ∈ test.literals, table.refers value.content = false) :
    test.assign table = test := by
  cases test with
  | relation op value =>
    rw [Test.assign, Literal.assign_eq (unbound value (by simp [literals]))]
  | pattern negated matcher value =>
    rw [Test.assign, Literal.assign_eq (unbound value (by simp [literals]))]
  | between negated low high =>
    rw [Test.assign, Literal.assign_eq (unbound low (by simp [literals])),
      Literal.assign_eq (unbound high (by simp [literals]))]
  | among negated operands =>
    cases operands with
    | paren values | bracket values =>
      have same : values.map (Literal.assign table) = values := assignAll_eq unbound
      rw [Test.assign, Operands.assign, same]
    | single value =>
      rw [Test.assign, Operands.assign,
        Literal.assign_eq (unbound value (by simp [literals, Operands.values]))]
  | present negated => rfl

theorem Parameter.assign_eq {parameter : Parameter}
    (unbound : ∀ word ∈ parameter.contents, table.refers word = false) :
    parameter.assign table = parameter := by
  cases parameter with
  | key ref =>
    rw [Parameter.assign, ofWord?_of_not_refers (unbound ref.text (by simp [contents]))]
    rfl
  | value literal =>
    rw [Parameter.assign, Literal.assign_eq (unbound literal.content (by simp [contents]))]
  | array values =>
    rw [Parameter.assign, assignAll_eq (by simpa [contents] using unbound)]

theorem Atom.assign_eq (unbound : ∀ word ∈ atom.contents, table.refers word = false) :
    atom.assign table = atom := by
  cases atom with
  | comparison key test =>
    have operands := (List.forall_mem_cons.1 unbound).2
    rw [Atom.assign, Test.assign_eq (by simpa using operands)]
  | call function parameters =>
    have each : ∀ parameter ∈ parameters, parameter.assign table = parameter :=
      fun parameter mem => Parameter.assign_eq fun word within =>
        unbound word (List.mem_flatMap.2 ⟨parameter, mem, within⟩)
    rw [Atom.assign, List.map_congr_left each, List.map_id']
  | quotedText raw => rfl
  | freeText text => rfl
  | bareKey key =>
    rw [Atom.assign, ofWord?_of_not_refers (unbound key.text (by simp [contents]))]
    rfl
  | bareValue value =>
    rw [Atom.assign, Literal.assign_eq (unbound value.content (by simp [contents]))]

/-- An atom is dropped if one of its words refers to a variable, and else only loses the brackets
of its list. -/
theorem Atom.replace_eq (all : table.SelectAll) (atom : Atom) :
    atom.replace table = if atom.contents.any table.refers then none else some atom.rounded := by
  have scalar : table.Scalar := fun name v bound => .inl (selectsAll_of_lookup all bound)
  have keyed : atom.keyHidden table = true := by
    cases atom with
    | comparison key test =>
      refine (Option.all_eq_true _ _).2 fun v found => ?_
      obtain ⟨name, bound⟩ := lookup_of_ofWord? found
      exact selectsAll_of_lookup all bound
    | _ => rfl
  rw [replace_assigned scalar keyed, hidden, funext (hides_eq_refers all)]
  cases dropped : atom.contents.any table.refers with
  | true => rfl
  | false => rw [assign_eq (by simpa using dropped)]

end SelectAll

theorem Operands.mem_rounded {operands : Operands} {word : Word}
    (mem : word ∈ operands.rounded.words) : word ∈ operands.words ∨ word.kind.isOpen = false := by
  cases operands with
  | bracket values =>
    simp only [Operands.rounded, Operands.words, List.cons_append, List.mem_cons, List.mem_append,
      List.not_mem_nil, or_false] at mem ⊢
    rcases mem with rfl | literal | rfl
    · exact .inr rfl
    · exact .inl (.inr (.inl literal))
    · exact .inr rfl
  | _ => exact .inl mem

theorem Test.mem_rounded {test : Test} {word : Word} (mem : word ∈ test.rounded.words) :
    word ∈ test.words ∨ word.kind.isOpen = false := by
  cases test with
  | among negated operands =>
    simp only [Test.rounded, Test.words, Test.negated, Test.core, List.mem_append, List.mem_cons]
      at mem ⊢
    rcases mem with negation | rfl | operand
    · exact .inl (.inl negation)
    · exact .inr rfl
    · exact (Operands.mem_rounded operand).imp_left fun within => .inr (.inr within)
  | _ => exact .inl mem

/-- An atom that can be written in words which are tokens. -/
structure Atom.Written (atom : Atom) : Prop where
  proper : atom.Proper
  whole : ∀ word ∈ atom.words, word.Whole

theorem Atom.Written.rounded (written : atom.Written) : atom.rounded.Written := by
  obtain ⟨proper, whole⟩ := written
  cases atom with
  | comparison key test =>
    constructor
    · cases test with
      | among negated operands => cases operands <;> exact proper
      | _ => exact proper
    · intro word mem
      rcases List.mem_cons.1 mem with rfl | tested
      · exact whole key.word List.mem_cons_self
      · rcases Test.mem_rounded tested with within | closed
        · exact whole word (List.mem_cons_of_mem _ within)
        · exact fun opened => absurd opened (by simp [closed])
  | _ => exact ⟨proper, whole⟩

theorem replaceBranches_cons (terms : List Term) (rest : List (List Term)) :
    replaceBranches table (terms :: rest) =
      if (replaceTerms table terms).isEmpty then replaceBranches table rest
      else replaceTerms table terms :: replaceBranches table rest := by
  rw [replaceBranches]
  cases replaceTerms table terms <;> rfl

theorem Term.replace_group (negated : Bool) (branches : List (List Term)) :
    (Term.group negated branches).replace table =
      if (replaceBranches table branches).isEmpty then none
      else some (.group negated (replaceBranches table branches)) := by
  rw [Term.replace]
  cases replaceBranches table branches <;> rfl

theorem Query.replace_some (branches : Disjunction) :
    Query.replace table (some branches) =
      if (replaceBranches table branches).isEmpty then none
      else some (replaceBranches table branches) := by
  rw [Query.replace, Option.bind_some]
  cases replaceBranches table branches <;> rfl

/-- A part of a filter that can be written in words which are tokens. -/
def Phrase.Written (phrase : Phrase) : Prop :=
  ∃ words, Spells phrase words ∧ ∀ word ∈ words, word.Whole

theorem Atom.Written.term (written : atom.Written) (negated : Bool) :
    (Phrase.term (.atom negated atom)).Written :=
  ⟨_, .atom written.proper,
    List.forall_mem_append.2 ⟨whole_negationWords negated, written.whole⟩⟩

theorem Phrase.Written.group {branches : Disjunction} (written : (Phrase.branches branches).Written)
    (negated : Bool) : (Phrase.term (.group negated branches)).Written := by
  obtain ⟨words, spells, whole⟩ := written
  refine ⟨_, .group spells, List.forall_mem_append.2 ⟨?_, ?_⟩⟩
  · refine List.forall_mem_append.2 ⟨whole_negationWords negated, ?_⟩
    exact List.forall_mem_cons.2 ⟨Word.whole_fixed rfl, whole⟩
  · exact List.forall_mem_singleton.2 (Word.whole_fixed rfl)

theorem Phrase.Written.lone {term : Term} (written : (Phrase.term term).Written) :
    (Phrase.terms [term]).Written := by
  obtain ⟨words, spells, whole⟩ := written
  exact ⟨words, .lone spells, whole⟩

theorem Phrase.Written.only (written : (Phrase.terms terms).Written) :
    (Phrase.branches [terms]).Written := by
  obtain ⟨words, spells, whole⟩ := written
  exact ⟨words, .only spells, whole⟩

theorem Phrase.Written.between {a b : Phrase} {mark : Kind} (closed : mark.isOpen = false)
    (first : a.Written) (last : b.Written) {whole : Phrase}
    (joins : ∀ {v w}, Spells a v → Spells b w → Spells whole (v ++ .fixed mark :: w)) :
    whole.Written := by
  obtain ⟨v, spellsFirst, wholeFirst⟩ := first
  obtain ⟨w, spellsLast, wholeLast⟩ := last
  refine ⟨_, joins spellsFirst spellsLast, List.forall_mem_append.2 ⟨wholeFirst, ?_⟩⟩
  exact List.forall_mem_cons.2 ⟨Word.whole_fixed closed, wholeLast⟩

/-- What is left of a part of a filter, if anything is, can be written. -/
def Phrase.Leaves (table : Variables) : Phrase → Prop
  | .term part => ∀ kept ∈ part.replace table, (Phrase.term kept).Written
  | .terms parts =>
    replaceTerms table parts ≠ [] → (Phrase.terms (replaceTerms table parts)).Written
  | .branches parts =>
    replaceBranches table parts ≠ [] → (Phrase.branches (replaceBranches table parts)).Written

theorem Phrase.Leaves.terms_cons {term : Term} (first : (Phrase.term term).Leaves table)
    (rest : (Phrase.terms terms).Leaves table) : (Phrase.terms (term :: terms)).Leaves table := by
  intro nonempty
  rw [replaceTerms] at nonempty ⊢
  cases kept : term.replace table with
  | none =>
    rw [kept] at nonempty
    exact rest nonempty
  | some left =>
    by_cases empty : replaceTerms table terms = []
    · rw [empty]
      exact (first left kept).lone
    · exact (first left kept).between (rfl : Kind.and.isOpen = false) (rest empty) .joined

theorem Phrase.Leaves.branches_cons {branches : Disjunction}
    (first : (Phrase.terms terms).Leaves table) (rest : (Phrase.branches branches).Leaves table) :
    (Phrase.branches (terms :: branches)).Leaves table := by
  intro nonempty
  rw [replaceBranches_cons] at nonempty ⊢
  by_cases dropped : (replaceTerms table terms).isEmpty = true
  · rw [if_pos dropped] at nonempty ⊢
    exact rest nonempty
  · rw [if_neg dropped]
    have left := first (by simpa using dropped)
    by_cases empty : replaceBranches table branches = []
    · rw [empty]
      exact left.only
    · exact left.between (rfl : Kind.or.isOpen = false) (rest empty) .either

theorem Phrase.Leaves.terms_nil : (Phrase.terms []).Leaves table :=
  fun nonempty => absurd (by rw [replaceTerms]) nonempty

theorem Phrase.Leaves.branches_nil : (Phrase.branches []).Leaves table :=
  fun nonempty => absurd (by rw [replaceBranches]) nonempty

/-- The atoms of what is spelled by whole words can be written. -/
theorem Spells.atoms_written {phrase : Phrase} {words : List Word} (spells : Spells phrase words)
    (whole : ∀ word ∈ words, word.Whole) : ∀ atom ∈ phrase.atoms, atom.Written := by
  induction spells with
  | @atom negated atom proper =>
    exact List.forall_mem_singleton.2 ⟨proper, (List.forall_mem_append.1 whole).2⟩
  | group _ ih =>
    simpa only [Phrase.atoms, Term.atoms] using ih fun word mem => whole word (by simp [mem])
  | lone _ ih => simpa only [Phrase.atoms, termsAtoms, List.append_nil] using ih whole
  | joined _ _ ihFirst ihRest | adjacent _ _ ihFirst ihRest =>
    exact List.forall_mem_append.2 ⟨ihFirst fun word mem => whole word (by simp [mem]),
      ihRest fun word mem => whole word (by simp [mem])⟩
  | only _ ih => simpa only [Phrase.atoms, branchesAtoms, List.append_nil] using ih whole
  | either _ _ ihFirst ihRest =>
    exact List.forall_mem_append.2 ⟨ihFirst fun word mem => whole word (by simp [mem]),
      ihRest fun word mem => whole word (by simp [mem])⟩

/-- If what is left of each atom can be written, then so can what is left of a filter. -/
theorem Spells.leaves {phrase : Phrase} {words : List Word} (spells : Spells phrase words)
    (written : ∀ atom ∈ phrase.atoms, ∀ left ∈ atom.replace table, left.Written) :
    phrase.Leaves table := by
  induction spells with
  | @atom negated atom proper =>
    intro kept found
    rw [Term.replace] at found
    obtain ⟨left, replaced, rfl⟩ := Option.map_eq_some_iff.1 found
    exact (written atom (List.mem_singleton.2 rfl) left replaced).term negated
  | @group negated branches words _ ih =>
    intro kept found
    rw [Term.replace_group] at found
    split at found
    · cases found
    · next some =>
      obtain rfl := Option.some.inj found
      exact (ih (by simpa only [Phrase.atoms, Term.atoms] using written)
        (by simpa using some)).group negated
  | lone _ ih =>
    simp only [Phrase.atoms, termsAtoms, List.append_nil] at written
    exact (ih written).terms_cons .terms_nil
  | joined _ _ ihFirst ihRest | adjacent _ _ ihFirst ihRest =>
    obtain ⟨first, rest⟩ := List.forall_mem_append.1 written
    exact (ihFirst first).terms_cons (ihRest rest)
  | only _ ih =>
    simp only [Phrase.atoms, branchesAtoms, List.append_nil] at written
    exact (ih written).branches_cons .branches_nil
  | either _ _ ihFirst ihRest =>
    obtain ⟨first, rest⟩ := List.forall_mem_append.1 written
    exact (ihFirst first).branches_cons (ihRest rest)

/-- The atoms of a filter that was read can be written. -/
theorem parse_atoms_written (ok : parse text = .ok query) :
    ∀ atom ∈ Query.atoms query, atom.Written := by
  obtain ⟨words, spelled, whole⟩ := parse_spelled ok
  cases query with
  | none => simp [Query.atoms]
  | some branches => exact Spells.atoms_written spelled whole

/-- What is left of a filter is printed as a text which is read as what is left, but for the places
of its keys. -/
theorem parse_replaced (ok : parse text = .ok query)
    (written : ∀ atom ∈ Query.atoms query, ∀ left ∈ atom.replace table, left.Written) :
    ∃ replaced found, replaceVariables table text = .ok replaced ∧ parse replaced = .ok found ∧
      Query.unplaced found = Query.unplaced (Query.replace table query) := by
  obtain ⟨words, spelled, -⟩ := parse_spelled ok
  have left : ∃ words, Query.Spelled (Query.replace table query) words ∧
      ∀ word ∈ words, word.Whole := by
    cases query with
    | none => exact ⟨[], rfl, by simp⟩
    | some branches =>
      rw [Query.replace_some]
      split
      · exact ⟨[], rfl, by simp⟩
      · next some => exact Spells.leaves spelled written (by simpa using some)
  obtain ⟨words, spelled, whole⟩ := left
  obtain ⟨printed, writes, spells⟩ := spelled.printed whole
  obtain ⟨found, read, same⟩ := parse_of_writes writes spells
  exact ⟨_, found, by rw [replaceVariables, ok]; rfl, read, same⟩

/-- A filter without the terms that variables take out is printed as a text which is read as that
filter, but for the places of its keys. -/
theorem parse_replaceVariables (all : table.SelectAll) (ok : parse text = .ok query) :
    ∃ replaced found, replaceVariables table text = .ok replaced ∧ parse replaced = .ok found ∧
      Query.unplaced found = Query.unplaced (Query.replace table query) := by
  refine parse_replaced ok fun atom mem left replaced => ?_
  rw [Atom.replace_eq all] at replaced
  split at replaced
  · cases replaced
  · obtain rfl := Option.some.inj replaced
    exact (parse_atoms_written ok atom mem).rounded

end Replacement

end TelemetryQuery.Filter
