import TelemetryQuery.Proofs.Filter.Reader
/- Reading without errors takes exactly the words of what is read. -/
namespace TelemetryQuery.Filter

variable {negated : Bool} {tokens rest left after used : List Token} {words : List Word}
  {remarks moreRemarks : Remarks} {scope : Scope} {text : String} {token : Token}

@[simp]
theorem Remarks.errors_append (a b : Remarks) : (a ++ b).errors = a.errors ++ b.errors :=
  rfl

@[simp]
theorem Remarks.errors_ofError (error : SyntaxError) : (Remarks.ofError error).errors = [error] :=
  rfl

theorem Function.ofKind?_eq_some {kind : Kind} {function : Function} :
    Function.ofKind? kind = some function ↔ kind = function.kind := by
  cases kind <;> cases function <;> simp [Function.ofKind?, Function.kind]

theorem Function.kind_isOpen (function : Function) : function.kind.isOpen = false := by
  cases function <;> rfl

/-- The tokens that were taken before some rest, by their words. -/
def Taken (tokens rest : List Token) (words : List Word) : Prop :=
  ∃ used, tokens = used ++ rest ∧ used.map Token.word = words

namespace Taken

theorem nil (tokens : List Token) : Taken tokens tokens [] :=
  ⟨[], rfl, rfl⟩

theorem cons (taken : Taken tokens rest words) :
    Taken (token :: tokens) rest (token.word :: words) := by
  obtain ⟨used, rfl, rfl⟩ := taken
  exact ⟨token :: used, rfl, rfl⟩

theorem trans {middle : List Token} {first last : List Word} (taken : Taken tokens middle first)
    (more : Taken middle rest last) : Taken tokens rest (first ++ last) := by
  obtain ⟨used, rfl, rfl⟩ := taken
  obtain ⟨more, rfl, rfl⟩ := more
  exact ⟨used ++ more, by rw [List.append_assoc], by rw [List.map_append]⟩

end Taken

/-- An atom made by a reader is made of what the reader gives. -/
theorem TermPart.ofReader_eq_read {α : Type} {make : α → Atom} {reader : Reader α}
    {lt : rest.length < tokens.length} {term : Term} {lt' : left.length < tokens.length} :
    TermPart.ofReader scope negated make reader rest lt = .read term remarks left lt' ↔
      ∃ a, reader.run scope rest = (.ok a, left) ∧ .atom negated (make a) = term ∧
        .none = remarks := by
  unfold TermPart.ofReader
  constructor
  · intro h
    split at h
    · next a left' eq =>
      cases h
      exact ⟨a, eq, rfl, rfl⟩
    · cases h
  · rintro ⟨a, ok, rfl, rfl⟩
    split
    · next b left' eq =>
      rw [ok] at eq
      cases eq
      rfl
    · next error left' eq =>
      rw [ok] at eq
      cases eq

theorem leaf_sound {term : Term} {lt : rest.length < (token :: after).length}
    (h : leaf scope negated token after = .read term remarks rest lt) :
    ∃ atom : Atom, atom.Proper ∧ term = .atom negated atom ∧
      Taken (token :: after) rest atom.words := by
  unfold leaf at h
  split at h
  · next function isCall =>
    obtain ⟨found, ok, rfl, rfl⟩ := TermPart.ofReader_eq_read.1 h
    obtain ⟨proper, used, rfl, spell⟩ := parameters_spelled.sound ok
    refine ⟨.call function found, proper, rfl, token :: used, rfl, ?_⟩
    have word : token.word = .fixed function.kind :=
      (Token.word_fixed function.kind_isOpen).2 (Function.ofKind?_eq_some.1 isCall)
    rw [List.map_cons, spell, word]
    rfl
  · split at h
    · next isKey =>
      split at h
      · obtain ⟨found, ok, rfl, rfl⟩ := TermPart.ofReader_eq_read.1 h
        obtain ⟨proper, used, rfl, spell⟩ := test_spelled.sound ok
        refine ⟨.comparison (keyRef token) found, proper, rfl, token :: used, rfl, ?_⟩
        rw [List.map_cons, spell, keyRef_word isKey]
        rfl
      · cases h
        exact ⟨.bareKey (keyRef token), trivial, rfl, [token], rfl,
          by rw [List.map_singleton, keyRef_word isKey]; rfl⟩
    · next isQuoted =>
      cases h
      exact ⟨.quotedText token.text, trivial, rfl, [token], rfl,
        by rw [List.map_singleton, (Token.word_open rfl).2 ⟨isQuoted, rfl⟩]; rfl⟩
    · next isFree =>
      cases h
      exact ⟨.freeText token.text, trivial, rfl, [token], rfl,
        by rw [List.map_singleton, (Token.word_open rfl).2 ⟨isFree, rfl⟩]; rfl⟩
    · next isNumber =>
      cases h
      exact ⟨.bareValue (.number token.text), .inl rfl, rfl, [token], rfl,
        by rw [List.map_singleton, (Token.word_open rfl).2 ⟨isNumber, rfl⟩]; rfl⟩
    · next isBool =>
      cases h
      exact ⟨.bareValue (.bool token.text), .inr rfl, rfl, [token], rfl,
        by rw [List.map_singleton, (Token.word_open rfl).2 ⟨isBool, rfl⟩]; rfl⟩
    · cases h

/-- A part that was read without errors takes the words of a phrase. -/
def Part.Takes {α : Type} {tokens : List Token} (part : Part α tokens) (phrase : α → Phrase) :
    Prop :=
  part.remarks.errors = [] →
    ∃ words, Taken tokens part.rest words ∧ Spells (phrase part.value) words

/-- A term that was read without errors takes its words, behind a negation that was taken before. -/
def TermPart.Takes {tokens : List Token} (part : TermPart tokens) (before : List Word) : Prop :=
  ∀ {term : Term} {remarks : Remarks} {rest : List Token} {lt : rest.length < tokens.length},
    part = .read term remarks rest lt → remarks.errors = [] →
      ∃ words, Taken tokens rest words ∧ Spells (.term term) (before ++ words)

/-- Alternatives behind a first one that were read without errors: there are none, or an `OR`
stands before them. -/
def Part.TakesMore {tokens : List Token} (part : Part Disjunction tokens) : Prop :=
  part.remarks.errors = [] →
    part.value = [] ∧ part.rest = tokens ∨
      ∃ words, Taken tokens part.rest (.fixed .or :: words) ∧ Spells (.branches part.value) words

/-- A conjunction and the alternatives behind it take the words of all of them. -/
theorem Part.Takes.either {first : Part Conjunction tokens} {more : Part Disjunction first.rest}
    (hc : first.Takes .terms) (ha : more.TakesMore) (cleanFirst : first.remarks.errors = [])
    (cleanMore : more.remarks.errors = []) :
    ∃ words, Taken tokens more.rest words ∧
      Spells (.branches (first.value :: more.value)) words := by
  obtain ⟨words, taken, spells⟩ := hc cleanFirst
  rcases ha cleanMore with ⟨none, same⟩ | ⟨moreWords, takenMore, spellsMore⟩
  · rw [none, same]
    exact ⟨words, taken, .only spells⟩
  · exact ⟨_, taken.trans takenMore, .either spells spellsMore⟩

theorem conjunction_failed {error : SyntaxError} {le : rest.length ≤ tokens.length}
    (failed : term (scope.enter .term) tokens = .failed error remarks rest le) :
    (conjunction scope tokens).remarks.errors ≠ [] := by
  rw [conjunction]
  simp only [failed]
  split
  · simp
  · split <;> simp

/-- A conjunction takes the words of its first term and of the terms behind it. -/
theorem conjunction_takes_read {first : Term} {lt : rest.length < tokens.length}
    (read : term (scope.enter .term) tokens = .read first remarks rest lt)
    (takes : (term (scope.enter .term) tokens).Takes [])
    (goesOn : ∀ rest, rest.length < tokens.length → (conjunction scope rest).Takes .terms) :
    (conjunction scope tokens).Takes .terms := by
  have one := takes read
  rw [conjunction]
  rcases rest with _ | ⟨token, after⟩
  · simp only [read]
    intro clean
    obtain ⟨words, taken, spells⟩ := one clean
    exact ⟨words, taken, .lone spells⟩
  · simp only [read]
    split
    · next isAnd =>
      intro clean
      obtain ⟨cleanFirst, cleanMore⟩ := List.append_eq_nil_iff.1 clean
      obtain ⟨words, taken, spells⟩ := one cleanFirst
      obtain ⟨others, takenMore, spellsMore⟩ := goesOn after (Nat.lt_of_succ_lt lt) cleanMore
      have word : token.word = .fixed .and := (Token.word_fixed rfl).2 isAnd
      exact ⟨_, taken.trans (word ▸ takenMore.cons), .joined spells spellsMore⟩
    · split
      · intro clean
        obtain ⟨cleanFirst, cleanMore⟩ := List.append_eq_nil_iff.1 clean
        obtain ⟨words, taken, spells⟩ := one cleanFirst
        obtain ⟨others, takenMore, spellsMore⟩ := goesOn _ lt cleanMore
        exact ⟨_, taken.trans takenMore, .adjacent spells spellsMore⟩
      · intro clean
        obtain ⟨words, taken, spells⟩ := one clean
        exact ⟨words, taken, .lone spells⟩

/-- A group takes its brackets and the words between them. -/
theorem primary_takes_group (opened : token.kind = .lparen)
    (takes : (disjunction scope after).Takes .branches) :
    (primary scope negated (token :: after)).Takes (negationWords negated) := by
  intro found remarks rest lt
  rw [primary, if_pos opened]
  generalize disjunction scope after = inner at takes ⊢
  obtain ⟨branches, inside, _ | ⟨closing, left⟩, le⟩ := inner
  · rintro ⟨⟩
  · by_cases closed : closing.kind = .rparen
    · simp only [if_pos closed]
      rintro ⟨⟩ clean
      obtain ⟨words, taken, spells⟩ := takes clean
      refine ⟨.fixed .lparen :: words ++ [Word.fixed .rparen], ?_, ?_⟩
      · rw [← (Token.word_fixed rfl).2 opened, ← (Token.word_fixed rfl).2 closed]
        exact taken.cons.trans (Taken.nil rest).cons
      · rw [← List.append_assoc]
        exact .group spells
    · simp only [if_neg closed]
      rintro ⟨⟩

-- Reading takes exactly the words of what is read: one statement for each rule.
mutual

theorem disjunction_takes (scope : Scope) (tokens : List Token) :
    (disjunction scope tokens).Takes .branches := by
  have le := (conjunction ((scope.enter .disjunction).enter .conjunction) tokens).le
  have takes := conjunction_takes ((scope.enter .disjunction).enter .conjunction) tokens
  have takesMore := alternatives_takesMore (scope.enter .disjunction)
    (conjunction ((scope.enter .disjunction).enter .conjunction) tokens).rest
  rw [disjunction]
  intro clean
  obtain ⟨cleanFirst, cleanMore⟩ := List.append_eq_nil_iff.1 clean
  exact takes.either takesMore cleanFirst cleanMore
termination_by 5 * tokens.length + 4
decreasing_by all_goals omega

theorem alternatives_takesMore (scope : Scope) (tokens : List Token) :
    (alternatives scope tokens).TakesMore := by
  rcases tokens with _ | ⟨token, after⟩
  · rw [alternatives]
    exact fun _ => .inl ⟨rfl, rfl⟩
  · by_cases isOr : token.kind = .or
    · have le := (conjunction (scope.enter .conjunction) after).le
      have takes := conjunction_takes (scope.enter .conjunction) after
      have takesMore := alternatives_takesMore scope
        (conjunction (scope.enter .conjunction) after).rest
      rw [alternatives, if_pos isOr]
      intro clean
      obtain ⟨cleanFirst, cleanMore⟩ := List.append_eq_nil_iff.1 clean
      obtain ⟨words, taken, spells⟩ := takes.either takesMore cleanFirst cleanMore
      exact .inr ⟨words, (Token.word_fixed rfl).2 isOr ▸ taken.cons, spells⟩
    · rw [alternatives, if_neg isOr]
      exact fun _ => .inl ⟨rfl, rfl⟩
termination_by 5 * tokens.length + 3
decreasing_by all_goals simp only [List.length_cons]; omega

theorem conjunction_takes (scope : Scope) (tokens : List Token) :
    (conjunction scope tokens).Takes .terms := by
  cases read : term (scope.enter .term) tokens with
  | read first remarks rest lt =>
    exact conjunction_takes_read read (term_takes _ tokens) fun rest _ => conjunction_takes scope rest
  | failed error remarks rest le => exact fun clean => absurd clean (conjunction_failed read)
termination_by 5 * tokens.length + 2
decreasing_by all_goals omega

theorem term_takes (scope : Scope) (tokens : List Token) : (term scope tokens).Takes [] := by
  rcases tokens with _ | ⟨token, after⟩ <;> intro found remarks rest lt
  · rw [term]
    rintro ⟨⟩
  · by_cases isNot : token.kind = .not
    · have takes := @primary_takes (scope.enter .primary) true after
      rw [term, if_pos isNot]
      cases read : primary (scope.enter .primary) true after with
      | read one remarks rest lt =>
        rintro ⟨⟩ clean
        obtain ⟨words, taken, spells⟩ := takes read clean
        exact ⟨_, taken.cons, (Token.word_fixed rfl).2 isNot ▸ spells⟩
      | failed error remarks rest le => rintro ⟨⟩
    · rw [term, if_neg isNot]
      exact primary_takes (scope.enter .primary) false (token :: after)
termination_by 5 * tokens.length + 1
decreasing_by all_goals simp only [List.length_cons]; omega

theorem primary_takes (scope : Scope) (negated : Bool) (tokens : List Token) :
    (primary scope negated tokens).Takes (negationWords negated) := by
  rcases tokens with _ | ⟨token, after⟩ <;> intro found remarks rest lt
  · rw [primary]
    rintro ⟨⟩
  · by_cases opened : token.kind = .lparen
    · exact primary_takes_group opened (disjunction_takes scope after)
    · rw [primary, if_neg opened]
      intro read clean
      obtain ⟨atom, proper, rfl, taken⟩ := leaf_sound read
      exact ⟨_, taken, .atom proper⟩
termination_by 5 * tokens.length
decreasing_by all_goals simp only [List.length_cons]; omega

end

/-- What may stand behind a term: nothing, a connective, a closing bracket, or another term. -/
def Follows : List Token → Prop
  | [] => True
  | token :: after =>
    token.kind = .and ∨ token.kind = .or ∨ token.kind = .rparen ∨ token.kind ∈ primaryStart ∨
      token.kind = .not ∧ nextKind after ∈ primaryStart

/-- What may stand behind a conjunction: nothing, an `OR`, or a closing bracket. -/
def EndsTerms : List Token → Prop
  | [] => True
  | token :: _ => token.kind = .or ∨ token.kind = .rparen

/-- What may stand behind alternatives: nothing, or a closing bracket. -/
def EndsBranches : List Token → Prop
  | [] => True
  | token :: _ => token.kind = .rparen

theorem EndsBranches.endsTerms (ends : EndsBranches rest) : EndsTerms rest := by
  cases rest with
  | nil => trivial
  | cons token after => exact .inr ends

theorem EndsTerms.follows (ends : EndsTerms rest) : Follows rest := by
  cases rest with
  | nil => trivial
  | cons token after =>
    rcases ends with isOr | closes
    · exact .inr (.inl isOr)
    · exact .inr (.inr (.inl closes))

/-- A key before what follows a term is not compared with it. -/
theorem Follows.startsTest (follows : Follows rest) : startsTest rest = false := by
  cases rest with
  | nil => rfl
  | cons token after =>
    unfold Filter.startsTest
    rw [nextKind_cons, List.tail_cons]
    rcases follows with h | h | h | h | ⟨h, starts⟩
    · rw [h]; rfl
    · rw [h]; rfl
    · rw [h]; rfl
    · cases kind : token.kind <;> simp [kind, primaryStart] at h <;> rfl
    · rw [h]
      cases kind : nextKind after <;> simp [kind, primaryStart] at starts <;> rfl

/-- A test behind a key is seen from its first words. -/
theorem startsTest_of_words {found : Test} (rest : List Token)
    (spell : used.map Token.word = found.words) : startsTest (used ++ rest) = true := by
  obtain ⟨kind, words, core, starts, negatable⟩ := found.core_head
  rw [Test.words, core] at spell
  unfold startsTest
  cases negated : found.negated with
  | true =>
    rw [negated] at spell
    obtain ⟨token, left, rfl, isNot, spell⟩ := List.map_eq_cons_iff.1 spell
    obtain ⟨operator, left, rfl, word, -⟩ := List.map_eq_cons_iff.1 spell
    have same : operator.kind = kind := congrArg Word.kind word
    rw [List.cons_append, nextKind_cons, (Token.word_fixed rfl).1 isNot, List.tail_cons,
      List.cons_append, nextKind_cons, same]
    exact decide_eq_true (negatable negated)
  | false =>
    rw [negated] at spell
    obtain ⟨operator, left, rfl, word, -⟩ := List.map_eq_cons_iff.1 spell
    have same : operator.kind = kind := congrArg Word.kind word
    rw [List.cons_append, nextKind_cons, same]
    cases kind <;> simp_all [Relation.ofKind?, Filter.negatable]

/-- The first word of an atom is none that could open a group or negate a term. -/
theorem Atom.words_head (atom : Atom) :
    ∃ word more, atom.words = word :: more ∧ word.kind ∈ primaryStart ∧ word.kind ≠ .lparen := by
  cases atom with
  | comparison key test => exact ⟨_, _, rfl, by simp [KeyRef.word, primaryStart]⟩
  | call function parameters => exact ⟨_, _, rfl, by cases function <;> decide⟩
  | quotedText raw => exact ⟨_, _, rfl, by simp [primaryStart]⟩
  | freeText text => exact ⟨_, _, rfl, by simp [primaryStart]⟩
  | bareKey key => exact ⟨_, _, rfl, by simp [KeyRef.word, primaryStart]⟩
  | bareValue value => exact ⟨_, _, rfl, by cases value <;> simp [Literal.word, primaryStart]⟩

theorem leaf_comparison {key : KeyRef} {test : Test} (proper : test.Proper)
    (word : token.word = key.word) (spell : after.map Token.word = test.words) (rest : List Token)
    (scope : Scope) (negated : Bool) :
    ∃ lt, leaf scope negated token (after ++ rest) =
      .read (.atom negated (.comparison (keyRef token) test)) .none rest lt := by
  obtain ⟨isKey, -⟩ := (Token.word_open rfl).1 word
  obtain ⟨found, ok, rfl⟩ := test_spelled.complete (scope.enter .comparison) rest proper spell
  refine ⟨by rw [List.length_cons, List.length_append]; omega, ?_⟩
  unfold leaf
  simp only [isKey, Function.ofKind?, startsTest_of_words rest spell, if_true]
  exact TermPart.ofReader_eq_read.2 ⟨found, ok, rfl, rfl⟩

theorem leaf_call {function : Function} {given : List Parameter}
    (proper : Atom.Proper (.call function given)) (word : token.word = .fixed function.kind)
    (spell : after.map Token.word =
      .fixed .lparen :: commaWords (given.map Parameter.words) ++ [.fixed .rparen])
    (rest : List Token) (scope : Scope) (negated : Bool) :
    ∃ found lt, leaf scope negated token (after ++ rest) =
        .read (.atom negated (.call function found)) .none rest lt ∧
      found.map Parameter.unplaced = given.map Parameter.unplaced := by
  have isCall := Function.ofKind?_eq_some.2 ((Token.word_fixed function.kind_isOpen).1 word)
  obtain ⟨found, ok, same⟩ := parameters_spelled.complete (scope.enter .call) rest proper spell
  refine ⟨found, by rw [List.length_cons, List.length_append]; omega, ?_, same⟩
  unfold leaf
  simp only [isCall]
  exact TermPart.ofReader_eq_read.2 ⟨found, ok, rfl, rfl⟩

/-- The words of a proper atom are read as that atom, before anything that may follow a term. -/
theorem leaf_complete {atom : Atom} (proper : atom.Proper)
    (spell : (token :: after).map Token.word = atom.words) (follows : Follows rest) (scope : Scope)
    (negated : Bool) :
    ∃ found remarks lt,
      leaf scope negated token (after ++ rest) = .read (.atom negated found) remarks rest lt ∧
        remarks.errors = [] ∧ found.unplaced = atom.unplaced := by
  cases atom with
  | comparison key test =>
    obtain ⟨word, spell⟩ := List.cons.inj spell
    obtain ⟨lt, read⟩ := leaf_comparison proper word spell rest scope negated
    obtain ⟨-, text⟩ := (Token.word_open rfl).1 word
    exact ⟨_, .none, lt, read, rfl, by simp [Atom.unplaced, KeyRef.unplaced, keyRef, text]⟩
  | call function parameters =>
    obtain ⟨word, spell⟩ := List.cons.inj spell
    obtain ⟨found, lt, read, same⟩ := leaf_call proper word spell rest scope negated
    exact ⟨_, .none, lt, read, rfl, by simp [Atom.unplaced, same]⟩
  | quotedText raw =>
    obtain ⟨word, nil⟩ := List.cons.inj spell
    obtain rfl := List.map_eq_nil_iff.1 nil
    obtain ⟨kind, rfl⟩ := (Token.word_open rfl).1 word
    exact ⟨_, .none, by simp, by unfold leaf; simp only [kind, Function.ofKind?]; rfl, rfl, rfl⟩
  | freeText text =>
    obtain ⟨word, nil⟩ := List.cons.inj spell
    obtain rfl := List.map_eq_nil_iff.1 nil
    obtain ⟨kind, rfl⟩ := (Token.word_open rfl).1 word
    exact ⟨_, .none, by simp, by unfold leaf; simp only [kind, Function.ofKind?]; rfl, rfl, rfl⟩
  | bareKey key =>
    obtain ⟨word, nil⟩ := List.cons.inj spell
    obtain rfl := List.map_eq_nil_iff.1 nil
    obtain ⟨kind, text⟩ := (Token.word_open rfl).1 word
    refine ⟨.bareKey (keyRef token), ⟨[], [keyRef token]⟩, by simp, ?_, rfl, ?_⟩
    · unfold leaf
      simp only [kind, Function.ofKind?, List.nil_append, follows.startsTest, Bool.false_eq_true,
        if_false]
    · simp [Atom.unplaced, KeyRef.unplaced, keyRef, text]
  | bareValue value =>
    obtain ⟨word, nil⟩ := List.cons.inj spell
    obtain rfl := List.map_eq_nil_iff.1 nil
    cases value with
    | quoted raw => rcases proper with h | h <;> cases h
    | key raw => rcases proper with h | h <;> cases h
    | number raw =>
      obtain ⟨kind, rfl⟩ := (Token.word_open rfl).1 word
      exact ⟨_, .none, by simp, by unfold leaf; simp only [kind, Function.ofKind?]; rfl, rfl, rfl⟩
    | bool raw =>
      obtain ⟨kind, rfl⟩ := (Token.word_open rfl).1 word
      exact ⟨_, .none, by simp, by unfold leaf; simp only [kind, Function.ofKind?]; rfl, rfl, rfl⟩

/-- Words that a term may start with: those of an atom or a group, or a negation before them. -/
def StartsTerm : List Word → Prop
  | [] => False
  | word :: more =>
    word.kind ∈ primaryStart ∨ word.kind = .not ∧ ∃ next ∈ more.head?, next.kind ∈ primaryStart

theorem StartsTerm.append {first : List Word} (starts : StartsTerm first) (more : List Word) :
    StartsTerm (first ++ more) := by
  match first, starts with
  | word :: left, .inl mem => exact .inl mem
  | word :: next :: left, .inr ⟨isNot, found, mem, primary⟩ =>
    exact .inr ⟨isNot, found, mem, primary⟩

/-- A negation before words that start an atom or a group starts a term. -/
theorem StartsTerm.negation (negated : Bool) {word : Word} {more : List Word}
    (primary : word.kind ∈ primaryStart) : StartsTerm (negationWords negated ++ word :: more) := by
  cases negated with
  | false => exact .inl primary
  | true => exact .inr ⟨rfl, word, rfl, primary⟩

theorem StartsTerm.follows (starts : StartsTerm (used.map Token.word)) :
    Follows (used ++ rest) := by
  match used, starts with
  | token :: left, .inl mem => exact .inr (.inr (.inr (.inl mem)))
  | token :: next :: left, .inr ⟨isNot, word, mem, primary⟩ =>
    cases mem
    exact .inr (.inr (.inr (.inr ⟨isNot, primary⟩)))

theorem Spells.startsTerm {phrase : Phrase} (spells : Spells phrase words) : StartsTerm words := by
  induction spells with
  | @atom negated atom proper =>
    obtain ⟨word, more, eq, primary, -⟩ := atom.words_head
    rw [eq]
    exact .negation negated primary
  | @group negated branches words spells ih =>
    rw [List.append_assoc]
    exact .negation negated (by decide)
  | lone spells ih => exact ih
  | joined first rest ihFirst ihRest => exact ihFirst.append _
  | adjacent first rest ihFirst ihRest => exact ihFirst.append _
  | only spells ih => exact ih
  | either first rest ihFirst ihRest => exact ihFirst.append _

/-- A conjunction and the alternatives behind it are read as one disjunction. -/
theorem disjunction_of_parts {first : Conjunction} {more : Disjunction}
    {le : left.length ≤ tokens.length} {lastLe : rest.length ≤ left.length}
    (conj : conjunction ((scope.enter .disjunction).enter .conjunction) tokens =
      ⟨first, remarks, left, le⟩)
    (alts : alternatives (scope.enter .disjunction) left = ⟨more, moreRemarks, rest, lastLe⟩) :
    disjunction scope tokens =
      ⟨first :: more, remarks ++ moreRemarks, rest, Nat.le_trans lastLe le⟩ := by
  rw [disjunction]
  split
  next eq =>
    cases conj.symm.trans eq
    split
    next eq =>
      cases alts.symm.trans eq
      rfl

theorem alternatives_of_parts {first : Conjunction} {more : Disjunction}
    {le : left.length ≤ after.length} {lastLe : rest.length ≤ left.length}
    (isOr : token.kind = .or)
    (conj : conjunction (scope.enter .conjunction) after = ⟨first, remarks, left, le⟩)
    (alts : alternatives scope left = ⟨more, moreRemarks, rest, lastLe⟩) :
    alternatives scope (token :: after) =
      ⟨first :: more, remarks ++ moreRemarks, rest, by simp; omega⟩ := by
  rw [alternatives, if_pos isOr]
  split
  next eq =>
    cases conj.symm.trans eq
    split
    next eq =>
      cases alts.symm.trans eq
      rfl

theorem EndsBranches.alternatives (ends : EndsBranches rest) (scope : Scope) :
    alternatives scope rest = ⟨[], .none, rest, Nat.le_refl _⟩ := by
  cases rest with
  | nil => rw [Filter.alternatives]
  | cons token after =>
    have other : token.kind ≠ .or := by
      rw [ends]
      decide
    rw [Filter.alternatives, if_neg other]

/-- Tokens that spell a phrase are read as it, up to the places of keys, and what may follow the
phrase is left. Alternatives are read as a first conjunction and more behind it. -/
def Phrase.Accepted : Phrase → List Token → Prop
  | .term one, used => ∀ scope rest, Follows rest → ∃ found remarks lt,
      Filter.term scope (used ++ rest) = .read found remarks rest lt ∧ remarks.errors = [] ∧
        found.unplaced = one.unplaced
  | .terms all, used => ∀ scope rest, EndsTerms rest → ∃ found remarks le,
      conjunction scope (used ++ rest) = ⟨found, remarks, rest, le⟩ ∧ remarks.errors = [] ∧
        unplacedTerms found = unplacedTerms all
  | .branches all, used => ∀ scope rest, EndsBranches rest →
      ∃ first remarks left le more moreRemarks lastLe,
        conjunction (scope.enter .conjunction) (used ++ rest) = ⟨first, remarks, left, le⟩ ∧
        alternatives scope left = ⟨more, moreRemarks, rest, lastLe⟩ ∧
        remarks.errors = [] ∧ moreRemarks.errors = [] ∧
        unplacedBranches (first :: more) = unplacedBranches all

theorem Phrase.Accepted.disjunction {branches : Disjunction}
    (accepted : Phrase.Accepted (.branches branches) used) (scope : Scope)
    (ends : EndsBranches rest) : ∃ found remarks le,
      Filter.disjunction scope (used ++ rest) = ⟨found, remarks, rest, le⟩ ∧ remarks.errors = [] ∧
        unplacedBranches found = unplacedBranches branches := by
  obtain ⟨first, remarks, left, le, more, moreRemarks, lastLe, conj, alts, clean, cleanMore,
    same⟩ :=
    accepted (scope.enter .disjunction) rest ends
  exact ⟨first :: more, remarks ++ moreRemarks, _, disjunction_of_parts conj alts,
    by simp [clean, cleanMore], same⟩

/-- A negation is taken before what it negates. -/
theorem term_of_primary {found : Term} {before : List Token} {lt : rest.length < tokens.length}
    (spell : before.map Token.word = negationWords negated) (starts : nextKind tokens ≠ .not)
    (read : primary (scope.enter .primary) negated tokens = .read found remarks rest lt) :
    ∃ lt, term scope (before ++ tokens) = .read found remarks rest lt := by
  cases negated with
  | false =>
    obtain rfl : before = [] := List.map_eq_nil_iff.1 spell
    refine ⟨lt, ?_⟩
    cases tokens with
    | nil => cases lt
    | cons token after =>
      change term scope (token :: after) = _
      rw [nextKind_cons] at starts
      rw [term, if_neg starts]
      exact read
  | true =>
    obtain ⟨token, rfl, isNot⟩ := List.map_eq_singleton_iff.1 spell
    refine ⟨by simp; omega, ?_⟩
    change term scope (token :: tokens) = _
    rw [term, if_pos ((Token.word_fixed rfl).1 isNot)]
    simp only [read]

/-- A first term is all of a conjunction that ends behind it. -/
theorem conjunction_of_last {found : Term} {lt : rest.length < tokens.length}
    (ends : EndsTerms rest) (read : term (scope.enter .term) tokens = .read found remarks rest lt) :
    conjunction scope tokens = ⟨[found], remarks, rest, Nat.le_of_lt lt⟩ := by
  rw [conjunction]
  cases rest with
  | nil => simp only [read]
  | cons token after =>
    have other : token.kind ≠ .and := by
      rcases ends with h | h <;> rw [h] <;> decide
    have closes : ¬(token.kind = .not || token.kind ∈ primaryStart) = true := by
      rcases ends with h | h <;> rw [h] <;> decide
    simp only [read, if_neg other, if_neg closes]

/-- An `AND` behind a term goes on with the terms behind it. -/
theorem conjunction_of_joined {found : Term} {more : Conjunction}
    {lt : (token :: after).length < tokens.length} {le : rest.length ≤ after.length}
    (isAnd : token.kind = .and)
    (read : term (scope.enter .term) tokens = .read found remarks (token :: after) lt)
    (conj : conjunction scope after = ⟨more, moreRemarks, rest, le⟩) :
    ∃ le, conjunction scope tokens = ⟨found :: more, remarks ++ moreRemarks, rest, le⟩ := by
  refine ⟨by simp at lt; omega, ?_⟩
  rw [conjunction]
  simp only [read, if_pos isAnd, conj]

/-- A term behind a term goes on with it. -/
theorem conjunction_of_adjacent {found : Term} {more : Conjunction}
    {lt : (token :: after).length < tokens.length} {le : rest.length ≤ (token :: after).length}
    (starts : token.kind = .not ∨ token.kind ∈ primaryStart)
    (read : term (scope.enter .term) tokens = .read found remarks (token :: after) lt)
    (conj : conjunction scope (token :: after) = ⟨more, moreRemarks, rest, le⟩) :
    ∃ le, conjunction scope tokens = ⟨found :: more, remarks ++ moreRemarks, rest, le⟩ := by
  have other : token.kind ≠ .and := by
    intro isAnd
    simp [isAnd, primaryStart] at starts
  have starts : (token.kind = .not || token.kind ∈ primaryStart) = true := by simpa using starts
  refine ⟨by omega, ?_⟩
  rw [conjunction]
  simp only [read, if_neg other, if_pos starts, conj]

theorem Spells.accepted {phrase : Phrase} (spells : Spells phrase words)
    (spell : used.map Token.word = words) : phrase.Accepted used := by
  -- Whatever may follow a part follows it here, so each part is read before the next one.
  induction spells generalizing used with
  | @atom negated atom proper =>
    intro scope rest follows
    obtain ⟨before, left, rfl, spellNot, spell⟩ := List.map_eq_append_iff.1 spell
    obtain ⟨word, more, head, starts, other⟩ := atom.words_head
    obtain ⟨token, after, rfl, rfl, -⟩ := List.map_eq_cons_iff.1 (spell.trans head)
    rw [Token.word_kind] at starts other
    obtain ⟨found, remarks, lt, ok, clean, same⟩ :=
      leaf_complete proper spell follows (scope.enter .primary) negated
    have read : primary (scope.enter .primary) negated (token :: (after ++ rest)) =
        .read (.atom negated found) remarks rest lt := by
      rw [primary, if_neg other]
      exact ok
    have notNot : nextKind (token :: (after ++ rest)) ≠ .not := by
      intro isNot
      rw [nextKind_cons] at isNot
      simp [isNot, primaryStart] at starts
    obtain ⟨lt, read⟩ := term_of_primary spellNot notNot read
    rw [List.append_assoc]
    exact ⟨_, remarks, lt, read, clean, by rw [Term.unplaced, Term.unplaced, same]⟩
  | @group negated branches words spells ih =>
    intro scope rest follows
    rw [List.append_assoc] at spell
    obtain ⟨before, left, rfl, spellNot, spell⟩ := List.map_eq_append_iff.1 spell
    obtain ⟨opening, left, rfl, opened, spell⟩ := List.map_eq_cons_iff.1 spell
    obtain ⟨inner, last, rfl, spellInner, spell⟩ := List.map_eq_append_iff.1 spell
    obtain ⟨closing, rfl, closes⟩ := List.map_eq_singleton_iff.1 spell
    have opened := (Token.word_fixed rfl).1 opened
    have closed := (Token.word_fixed rfl).1 closes
    -- The closing bracket ends the branches inside, and it alone is left after them.
    have ends : EndsBranches (closing :: rest) := closed
    obtain ⟨found, remarks, le, ok, clean, same⟩ :=
      (ih spellInner).disjunction (scope.enter .primary) ends
    have read : ∃ lt, primary (scope.enter .primary) negated
        (opening :: (inner ++ closing :: rest)) = .read (.group negated found) remarks rest lt := by
      refine ⟨by simp; omega, ?_⟩
      rw [primary, if_pos opened]
      simp only [ok, if_pos closed]
    obtain ⟨lt, read⟩ := read
    have notNot : nextKind (opening :: (inner ++ closing :: rest)) ≠ .not := by
      rw [nextKind_cons, opened]
      decide
    obtain ⟨lt, read⟩ := term_of_primary spellNot notNot read
    rw [List.append_assoc, List.cons_append, List.append_assoc]
    refine ⟨.group negated found, remarks, lt, read, clean, ?_⟩
    rw [Term.unplaced, Term.unplaced, same]
  | lone spells ih =>
    intro scope rest ends
    obtain ⟨found, remarks, lt, read, clean, same⟩ := ih spell (scope.enter .term) rest ends.follows
    exact ⟨[found], remarks, _, conjunction_of_last ends read, clean,
      by simp only [unplacedTerms, same]⟩
  | joined first more ihFirst ihRest =>
    intro scope rest ends
    obtain ⟨usedFirst, left, rfl, spellFirst, spell⟩ := List.map_eq_append_iff.1 spell
    obtain ⟨token, usedRest, rfl, isAnd, spell⟩ := List.map_eq_cons_iff.1 spell
    have isAnd := (Token.word_fixed rfl).1 isAnd
    obtain ⟨found, remarks, lt, read, clean, same⟩ :=
      ihFirst spellFirst (scope.enter .term) (token :: (usedRest ++ rest)) (.inl isAnd)
    obtain ⟨more, moreRemarks, le, conj, cleanMore, sameMore⟩ := ihRest spell scope rest ends
    obtain ⟨le, ok⟩ := conjunction_of_joined isAnd read conj
    rw [List.append_assoc, List.cons_append]
    exact ⟨found :: more, remarks ++ moreRemarks, le, ok, by simp [clean, cleanMore],
      by simp only [unplacedTerms, same, sameMore]⟩
  | adjacent first more ihFirst ihRest =>
    intro scope rest ends
    obtain ⟨usedFirst, usedRest, rfl, spellFirst, spell⟩ := List.map_eq_append_iff.1 spell
    -- Without an `AND`, only the first word of the next term tells that there is one.
    have starts := more.startsTerm
    rw [← spell] at starts
    obtain ⟨found, remarks, lt, read, clean, same⟩ :=
      ihFirst spellFirst (scope.enter .term) (usedRest ++ rest) starts.follows
    obtain ⟨more, moreRemarks, le, conj, cleanMore, sameMore⟩ := ihRest spell scope rest ends
    rw [List.append_assoc]
    cases usedRest with
    | nil => exact starts.elim
    | cons token after =>
      have starts : token.kind = .not ∨ token.kind ∈ primaryStart := by
        rcases starts with primary | ⟨isNot, -⟩
        · exact .inr primary
        · exact .inl isNot
      obtain ⟨le, ok⟩ := conjunction_of_adjacent starts read conj
      exact ⟨found :: more, remarks ++ moreRemarks, le, ok, by simp [clean, cleanMore],
        by simp only [unplacedTerms, same, sameMore]⟩
  | only spells ih =>
    intro scope rest ends
    obtain ⟨found, remarks, le, conj, clean, same⟩ :=
      ih spell (scope.enter .conjunction) rest ends.endsTerms
    exact ⟨found, remarks, rest, le, [], .none, _, conj, ends.alternatives scope, clean, rfl,
      by simp only [unplacedBranches, same]⟩
  | either first more ihFirst ihRest =>
    intro scope rest ends
    obtain ⟨usedFirst, left, rfl, spellFirst, spell⟩ := List.map_eq_append_iff.1 spell
    obtain ⟨token, usedRest, rfl, isOr, spell⟩ := List.map_eq_cons_iff.1 spell
    have isOr := (Token.word_fixed rfl).1 isOr
    obtain ⟨found, remarks, le, conj, clean, same⟩ :=
      ihFirst spellFirst (scope.enter .conjunction) (token :: (usedRest ++ rest)) (.inl isOr)
    obtain ⟨second, secondRemarks, left, le', more, moreRemarks, lastLe, conj', alts, clean',
      cleanMore, sameMore⟩ := ihRest spell scope rest ends
    rw [List.append_assoc, List.cons_append]
    exact ⟨found, remarks, token :: (usedRest ++ rest), le, second :: more,
      secondRemarks ++ moreRemarks, _, conj, alternatives_of_parts isOr conj' alts, clean,
      by simp [clean', cleanMore], by rw [unplacedBranches, sameMore, same, ← unplacedBranches]⟩

theorem trailing?_eq_nil : trailing? scope tokens = [] ↔ tokens = [] := by
  cases tokens <;> simp [trailing?]

/-- Where reading a whole text starts. -/
def Scope.whole (text : String) : Scope :=
  ⟨[.query], (lex text).ending.place⟩

theorem read_blank (empty : (lex text).tokens = []) :
    read text = ⟨none, [], (lex text).errors, []⟩ := by
  simp only [read, empty, List.isEmpty_nil, if_true]

theorem read_nonblank (nonempty : (lex text).tokens ≠ []) :
    (read text).query = some (disjunction (.whole text) (lex text).tokens).value ∧
      (read text).errors = (lex text).errors ++
        (disjunction (.whole text) (lex text).tokens).remarks.errors ++
        trailing? (.whole text) (disjunction (.whole text) (lex text).tokens).rest := by
  have some' : ¬(lex text).tokens.isEmpty = true := by simpa using nonempty
  simp only [read, if_neg some', Scope.whole, and_self]

/-- A text that is read without errors holds the words of its filter and no others. -/
theorem read_sound (clean : (read text).errors = []) :
    (lex text).errors = [] ∧
      Query.Spelled (read text).query ((lex text).tokens.map Token.word) := by
  by_cases empty : (lex text).tokens = []
  · rw [read_blank empty] at clean ⊢
    exact ⟨clean, by rw [empty]; rfl⟩
  · obtain ⟨query, errors⟩ := read_nonblank empty
    rw [errors] at clean
    obtain ⟨cleanBefore, ended⟩ := List.append_eq_nil_iff.1 clean
    obtain ⟨cleanLex, cleanRead⟩ := List.append_eq_nil_iff.1 cleanBefore
    obtain ⟨words, ⟨used, eq, rfl⟩, spells⟩ := disjunction_takes _ _ cleanRead
    rw [trailing?_eq_nil.1 ended, List.append_nil] at eq
    rw [← eq] at spells
    rw [query]
    exact ⟨cleanLex, spells⟩

/-- A text without stray characters that holds the words of a filter is read as that filter, up to
the places of its keys. -/
theorem read_complete {query : Query} (clean : (lex text).errors = [])
    (spelled : query.Spelled ((lex text).tokens.map Token.word)) :
    (read text).errors = [] ∧ Query.unplaced (read text).query = query.unplaced := by
  cases query with
  | none =>
    rw [read_blank (List.map_eq_nil_iff.1 spelled)]
    exact ⟨clean, rfl⟩
  | some branches =>
    have nonempty : (lex text).tokens ≠ [] := by
      intro empty
      have starts := Spells.startsTerm spelled
      rw [empty] at starts
      exact starts
    have ends : EndsBranches [] := trivial
    have accepted := (Spells.accepted spelled rfl).disjunction (.whole text) ends
    rw [List.append_nil] at accepted
    obtain ⟨found, remarks, le, ok, cleanRead, same⟩ := accepted
    obtain ⟨query, errors⟩ := read_nonblank nonempty
    rw [ok] at query errors
    rw [query, errors, clean, cleanRead]
    exact ⟨rfl, congrArg some same⟩

end TelemetryQuery.Filter
