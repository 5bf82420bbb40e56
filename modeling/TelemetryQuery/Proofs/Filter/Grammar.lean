import TelemetryQuery.Proofs.Filter.Parser
/- The grammar of filters over kinds of tokens, and that reading accepts exactly its sentences. -/
namespace TelemetryQuery.Filter

/-- The symbols of the grammar that stand for runs of tokens. -/
inductive Symbol where
  | or
  | and
  | unary
  | primary
  | comparison
  | call
  | parameters
  | parameter
  | values
  | value
deriving DecidableEq, Repr

/-- An optional negation. -/
def negationKinds (negated : Bool) : List Kind :=
  if negated then [.not] else []

/-- The runs of kinds that a symbol of the grammar derives, one rule for each alternative. The
rules overlap: a lone key is a search and the start of a comparison, a negation belongs to a term
or to a comparison, and `AND` to a range or to a conjunction. -/
inductive Derives : Symbol → List Kind → Prop
  | oneBranch {w : List Kind} : Derives .and w → Derives .or w
  | moreBranches {v w : List Kind} : Derives .and v → Derives .or w → Derives .or (v ++ .or :: w)
  | oneTerm {w : List Kind} : Derives .unary w → Derives .and w
  | joinedTerms {v w : List Kind} : Derives .unary v → Derives .and w →
      Derives .and (v ++ .and :: w)
  | adjacentTerms {v w : List Kind} : Derives .unary v → Derives .and w → Derives .and (v ++ w)
  | unary {w : List Kind} (negated : Bool) : Derives .primary w →
      Derives .unary (negationKinds negated ++ w)
  | group {w : List Kind} : Derives .or w → Derives .primary (.lparen :: w ++ [.rparen])
  | comparison {w : List Kind} : Derives .comparison w → Derives .primary w
  | call {w : List Kind} : Derives .call w → Derives .primary w
  | search {kind : Kind} : kind ∈ [.quotedText, .freeText, .key, .number, .bool] →
      Derives .primary [kind]
  | relation {kind : Kind} {w : List Kind} :
      kind ∈ [.equals, .notEquals, .neq, .lt, .le, .gt, .ge] → Derives .value w →
      Derives .comparison (.key :: kind :: w)
  | pattern {kind : Kind} {w : List Kind} (negated : Bool) :
      kind ∈ [.like, .ilike, .regexp, .contains] → Derives .value w →
      Derives .comparison (.key :: (negationKinds negated ++ kind :: w))
  | between {v w : List Kind} (negated : Bool) : Derives .value v → Derives .value w →
      Derives .comparison (.key :: (negationKinds negated ++ .between :: (v ++ .and :: w)))
  | exist (negated : Bool) : Derives .comparison (.key :: (negationKinds negated ++ [.exist]))
  | inParens {w : List Kind} (negated : Bool) : Derives .values w →
      Derives .comparison (.key :: (negationKinds negated ++ .isIn :: .lparen :: (w ++ [.rparen])))
  | inBrackets {w : List Kind} (negated : Bool) : Derives .values w →
      Derives .comparison (.key :: (negationKinds negated ++ .isIn :: .lbrack :: (w ++ [.rbrack])))
  | inSingle {w : List Kind} (negated : Bool) : Derives .value w →
      Derives .comparison (.key :: (negationKinds negated ++ .isIn :: w))
  | calling {kind : Kind} {w : List Kind} : kind ∈ [.has, .hasAny, .hasAll, .hasToken] →
      Derives .parameters w → Derives .call (kind :: .lparen :: w ++ [.rparen])
  | oneParameter {w : List Kind} : Derives .parameter w → Derives .parameters w
  | moreParameters {v w : List Kind} : Derives .parameter v → Derives .parameters w →
      Derives .parameters (v ++ .comma :: w)
  | valueParameter {w : List Kind} : Derives .value w → Derives .parameter w
  | arrayParameter {w : List Kind} : Derives .values w →
      Derives .parameter (.lbrack :: w ++ [.rbrack])
  | oneValue {w : List Kind} : Derives .value w → Derives .values w
  | moreValues {v w : List Kind} : Derives .value v → Derives .values w →
      Derives .values (v ++ .comma :: w)
  | value {kind : Kind} : kind ∈ [.quotedText, .number, .bool, .key] → Derives .value [kind]

def kinds (words : List Word) : List Kind :=
  words.map Word.kind

@[simp]
theorem kinds_nil : kinds [] = [] :=
  rfl

@[simp]
theorem kinds_cons (word : Word) (words : List Word) :
    kinds (word :: words) = word.kind :: kinds words :=
  rfl

@[simp]
theorem kinds_append (a b : List Word) : kinds (a ++ b) = kinds a ++ kinds b :=
  List.map_append

@[simp]
theorem kinds_negationWords (negated : Bool) :
    kinds (negationWords negated) = negationKinds negated := by
  cases negated <;> rfl

theorem Literal.derives (literal : Literal) : Derives .value [literal.word.kind] := by
  cases literal <;> exact .value (by simp [Literal.word])

/-- Items of one form with a comma before more of them. -/
theorem commaWords_map_cons {α : Type} {words : α → List Word} {item : α} {items : List α}
    (nonempty : items ≠ []) :
    commaWords ((item :: items).map words) =
      words item ++ .fixed .comma :: commaWords (items.map words) := by
  cases items with
  | nil => exact absurd rfl nonempty
  | cons next items => rfl

theorem literalWords_cons {value : Literal} {values : List Literal} (nonempty : values ≠ []) :
    literalWords (value :: values) = value.word :: .fixed .comma :: literalWords values :=
  commaWords_map_cons nonempty

/-- Items with commas between them are derived from what derives one of them. -/
theorem derives_commaWords {α : Type} {one more : Symbol} {words : α → List Word}
    (lone : ∀ {w}, Derives one w → Derives more w)
    (comma : ∀ {v w}, Derives one v → Derives more w → Derives more (v ++ .comma :: w))
    {items : List α} (nonempty : items ≠ [])
    (each : ∀ item ∈ items, Derives one (kinds (words item))) :
    Derives more (kinds (commaWords (items.map words))) := by
  induction items with
  | nil => exact absurd rfl nonempty
  | cons first items ih =>
    obtain ⟨derivesFirst, derivesRest⟩ := List.forall_mem_cons.1 each
    by_cases more : items = []
    · rw [more]
      exact lone derivesFirst
    · rw [commaWords_map_cons more, kinds_append]
      exact comma derivesFirst (ih more derivesRest)

theorem derives_literalWords {values : List Literal} (nonempty : values ≠ []) :
    Derives .values (kinds (literalWords values)) :=
  derives_commaWords .oneValue .moreValues nonempty fun value _ => value.derives

theorem Relation.exists_kind {kind : Kind} :
    (∃ op : Relation, op.kind = kind) ↔
      kind ∈ [Kind.equals, .notEquals, .neq, .lt, .le, .gt, .ge] := by
  constructor
  · rintro ⟨op, rfl⟩
    cases op <;> decide
  · intro mem
    simp only [List.mem_cons, List.not_mem_nil, or_false] at mem
    rcases mem with rfl | rfl | rfl | rfl | rfl | rfl | rfl
    · exact ⟨equal, rfl⟩
    · exact ⟨notEqual, rfl⟩
    · exact ⟨unequal, rfl⟩
    · exact ⟨less, rfl⟩
    · exact ⟨lessEq, rfl⟩
    · exact ⟨greater, rfl⟩
    · exact ⟨greaterEq, rfl⟩

theorem Matcher.exists_kind {kind : Kind} :
    (∃ matcher : Matcher, matcher.kind = kind) ↔
      kind ∈ [Kind.like, .ilike, .regexp, .contains] := by
  constructor
  · rintro ⟨matcher, rfl⟩
    cases matcher <;> decide
  · intro mem
    simp only [List.mem_cons, List.not_mem_nil, or_false] at mem
    rcases mem with rfl | rfl | rfl | rfl
    · exact ⟨like, rfl⟩
    · exact ⟨ilike, rfl⟩
    · exact ⟨regexp, rfl⟩
    · exact ⟨contains, rfl⟩

theorem Function.exists_kind {kind : Kind} :
    (∃ function : Function, function.kind = kind) ↔
      kind ∈ [Kind.has, .hasAny, .hasAll, .hasToken] := by
  constructor
  · rintro ⟨function, rfl⟩
    cases function <;> decide
  · intro mem
    simp only [List.mem_cons, List.not_mem_nil, or_false] at mem
    rcases mem with rfl | rfl | rfl | rfl
    · exact ⟨has, rfl⟩
    · exact ⟨hasAny, rfl⟩
    · exact ⟨hasAll, rfl⟩
    · exact ⟨hasToken, rfl⟩

theorem Test.derives {test : Test} (proper : test.Proper) :
    Derives .comparison (.key :: kinds test.words) := by
  cases test with
  | relation op value => exact .relation (Relation.exists_kind.1 ⟨op, rfl⟩) value.derives
  | pattern negated matcher value =>
    simpa [Test.words, Test.negated, Test.core] using
      Derives.pattern negated (Matcher.exists_kind.1 ⟨matcher, rfl⟩) value.derives
  | between negated low high =>
    simpa [Test.words, Test.negated, Test.core] using
      Derives.between negated low.derives high.derives
  | present negated =>
    simpa [Test.words, Test.negated, Test.core] using Derives.exist negated
  | among negated operands =>
    cases operands with
    | paren values =>
      simpa [Test.words, Test.negated, Test.core, Operands.words] using
        Derives.inParens negated (derives_literalWords proper)
    | bracket values =>
      simpa [Test.words, Test.negated, Test.core, Operands.words] using
        Derives.inBrackets negated (derives_literalWords proper)
    | single value =>
      simpa [Test.words, Test.negated, Test.core, Operands.words] using
        Derives.inSingle negated value.derives

theorem Parameter.derives {parameter : Parameter} (proper : parameter.Proper) :
    Derives .parameter (kinds parameter.words) := by
  cases parameter with
  | key ref => exact .valueParameter (.value (by simp [KeyRef.word]))
  | value literal => exact .valueParameter literal.derives
  | array values =>
    simpa [Parameter.words] using Derives.arrayParameter (derives_literalWords proper)

theorem Atom.derives {atom : Atom} (proper : atom.Proper) :
    Derives .primary (kinds atom.words) := by
  cases atom with
  | comparison key test => exact .comparison (Test.derives proper)
  | call function parameters =>
    obtain ⟨nonempty, each⟩ := proper
    have derivesAll := derives_commaWords .oneParameter .moreParameters nonempty
      fun parameter mem => Parameter.derives (each parameter mem)
    have calls := Derives.calling (Function.exists_kind.1 ⟨function, rfl⟩) derivesAll
    simpa [Atom.words] using Derives.call calls
  | quotedText raw => exact .search (by simp)
  | freeText text => exact .search (by simp)
  | bareKey key => exact .search (by simp [KeyRef.word])
  | bareValue value =>
    refine .search ?_
    rcases proper with number | bool
    · rw [number]; decide
    · rw [bool]; decide

/-- The symbol that derives a part of an expression. -/
def Phrase.symbol : Phrase → Symbol
  | term _ => .unary
  | terms _ => .and
  | branches _ => .or

/-- What a part of an expression stands for is a sentence of its symbol. -/
theorem Spells.derives {phrase : Phrase} {words : List Word} (spell : Spells phrase words) :
    Derives phrase.symbol (kinds words) := by
  induction spell with
  | @atom negated atom proper =>
    rw [kinds_append, kinds_negationWords]
    exact .unary negated (Atom.derives proper)
  | @group negated branches words _ ih =>
    have group := Derives.unary negated (.group ih)
    simpa [Phrase.symbol] using group
  | lone _ ih => exact .oneTerm ih
  | joined _ _ first rest =>
    rw [kinds_append]
    exact .joinedTerms first rest
  | adjacent _ _ first rest =>
    rw [kinds_append]
    exact .adjacentTerms first rest
  | only _ ih => exact .oneBranch ih
  | either _ _ first rest =>
    rw [kinds_append]
    exact .moreBranches first rest

/-- Some words of tokens of the given kinds. -/
def Stands (kinds : List Kind) (words : List Word) : Prop :=
  ∃ tokens : List Token, tokens.map Token.kind = kinds ∧ tokens.map Token.word = words

namespace Stands

variable {kind : Kind} {v w : List Kind} {words : List Word}

theorem append (stands : Stands (v ++ w) words) :
    ∃ first rest, words = first ++ rest ∧ Stands v first ∧ Stands w rest := by
  obtain ⟨tokens, split, rfl⟩ := stands
  obtain ⟨first, rest, rfl, ofFirst, ofRest⟩ := List.map_eq_append_iff.1 split
  exact ⟨first.map Token.word, rest.map Token.word, List.map_append, ⟨first, ofFirst, rfl⟩,
    ⟨rest, ofRest, rfl⟩⟩

theorem cons (stands : Stands (kind :: w) words) :
    ∃ text rest, words = .ofText kind text :: rest ∧ Stands w rest := by
  obtain ⟨tokens, split, rfl⟩ := stands
  obtain ⟨token, rest, rfl, rfl, ofRest⟩ := List.map_eq_cons_iff.1 split
  exact ⟨token.text, rest.map Token.word, rfl, ⟨rest, ofRest, rfl⟩⟩

theorem nil (stands : Stands [] words) : words = [] := by
  obtain ⟨tokens, none, rfl⟩ := stands
  rw [List.map_eq_nil_iff.1 none, List.map_nil]

theorem fixed (stands : Stands (kind :: w) words) (closed : kind.isOpen = false) :
    ∃ rest, words = .fixed kind :: rest ∧ Stands w rest := by
  obtain ⟨text, rest, rfl, ofRest⟩ := stands.cons
  refine ⟨rest, ?_, ofRest⟩
  rw [Word.ofText, closed]
  rfl

theorem single (stands : Stands [kind] words) : ∃ text, words = [.ofText kind text] := by
  obtain ⟨text, rest, rfl, none⟩ := stands.cons
  rw [none.nil]
  exact ⟨text, rfl⟩

theorem last (stands : Stands (w ++ [kind]) words) (closed : kind.isOpen = false) :
    ∃ first, words = first ++ [.fixed kind] ∧ Stands w first := by
  obtain ⟨first, rest, rfl, ofFirst, ofRest⟩ := stands.append
  obtain ⟨rest, rfl, none⟩ := ofRest.fixed closed
  rw [none.nil]
  exact ⟨first, rfl, ofFirst⟩

theorem negation {negated : Bool} (stands : Stands (negationKinds negated ++ w) words) :
    ∃ rest, words = negationWords negated ++ rest ∧ Stands w rest := by
  cases negated with
  | false => exact ⟨words, rfl, stands⟩
  | true => exact Stands.fixed stands rfl

end Stands

/-- What words must be for a symbol to derive their kinds: those of some part of an expression. -/
def Symbol.Readable : Symbol → List Word → Prop
  | or, words => ∃ branches, Spells (.branches branches) words
  | and, words => ∃ terms, Spells (.terms terms) words
  | unary, words => ∃ term, Spells (.term term) words
  | primary, words => ∀ negated, ∃ term, Spells (.term term) (negationWords negated ++ words)
  | comparison, words => ∃ key test, Test.Proper test ∧ words = Atom.words (.comparison key test)
  | call, words => ∃ function parameters, Atom.Proper (.call function parameters) ∧
      words = Atom.words (.call function parameters)
  | parameters, words => ∃ parameters : List Parameter, parameters ≠ [] ∧
      (∀ parameter ∈ parameters, parameter.Proper) ∧
      words = commaWords (parameters.map Parameter.words)
  | parameter, words => ∃ parameter, Parameter.Proper parameter ∧ words = parameter.words
  | values, words => ∃ values, values ≠ [] ∧ words = literalWords values
  | value, words => ∃ literal, words = [Literal.word literal]

theorem readable_value {kind : Kind} {words : List Word}
    (mem : kind ∈ [Kind.quotedText, .number, .bool, .key]) (stands : Stands [kind] words) :
    Symbol.value.Readable words := by
  obtain ⟨text, rfl⟩ := stands.single
  simp only [List.mem_cons, List.not_mem_nil, or_false] at mem
  rcases mem with rfl | rfl | rfl | rfl
  · exact ⟨.quoted text, rfl⟩
  · exact ⟨.number text, rfl⟩
  · exact ⟨.bool text, rfl⟩
  · exact ⟨.key text, rfl⟩

/-- A value as a parameter: a key keeps its place. -/
theorem readable_parameter {words : List Word} (value : Symbol.value.Readable words) :
    Symbol.parameter.Readable words := by
  obtain ⟨literal, rfl⟩ := value
  cases literal with
  | key raw => exact ⟨.key ⟨raw, .start⟩, trivial, rfl⟩
  | quoted raw => exact ⟨.value (.quoted raw), by simp [Parameter.Proper, Literal.word], rfl⟩
  | number raw => exact ⟨.value (.number raw), by simp [Parameter.Proper, Literal.word], rfl⟩
  | bool raw => exact ⟨.value (.bool raw), by simp [Parameter.Proper, Literal.word], rfl⟩

theorem readable_atom (atom : Atom) (proper : atom.Proper) :
    Symbol.primary.Readable atom.words :=
  fun negated => ⟨.atom negated atom, .atom proper⟩

theorem readable_search {kind : Kind} {words : List Word}
    (mem : kind ∈ [Kind.quotedText, .freeText, .key, .number, .bool])
    (stands : Stands [kind] words) : Symbol.primary.Readable words := by
  obtain ⟨text, rfl⟩ := stands.single
  simp only [List.mem_cons, List.not_mem_nil, or_false] at mem
  rcases mem with rfl | rfl | rfl | rfl | rfl
  · exact readable_atom (.quotedText text) trivial
  · exact readable_atom (.freeText text) trivial
  · exact readable_atom (.bareKey ⟨text, .start⟩) trivial
  · exact readable_atom (.bareValue (.number text)) (.inl rfl)
  · exact readable_atom (.bareValue (.bool text)) (.inr rfl)

/-- Words of a test behind its key. -/
theorem readable_comparison {w : List Kind} {words : List Word}
    (stands : Stands (.key :: w) words)
    (tests : ∀ {rest}, Stands w rest → ∃ test, Test.Proper test ∧ rest = test.words) :
    Symbol.comparison.Readable words := by
  obtain ⟨text, rest, rfl, ofRest⟩ := stands.cons
  obtain ⟨test, proper, rfl⟩ := tests ofRest
  exact ⟨⟨text, .start⟩, test, proper, rfl⟩

/-- Tokens whose kinds a symbol derives are those of some part of an expression. -/
theorem Derives.readable {symbol : Symbol} {w : List Kind} (derives : Derives symbol w) :
    ∀ {words : List Word}, Stands w words → symbol.Readable words := by
  -- One case for each rule: the words are cut where the rule's symbols meet.
  induction derives with
  | oneBranch _ ih =>
    intro words stands
    obtain ⟨terms, spell⟩ := ih stands
    exact ⟨[terms], .only spell⟩
  | moreBranches _ _ ihFirst ihRest =>
    intro words stands
    obtain ⟨first, more, rfl, ofFirst, ofMore⟩ := stands.append
    obtain ⟨rest, rfl, ofRest⟩ := ofMore.fixed rfl
    obtain ⟨terms, spellFirst⟩ := ihFirst ofFirst
    obtain ⟨branches, spellRest⟩ := ihRest ofRest
    exact ⟨terms :: branches, .either spellFirst spellRest⟩
  | oneTerm _ ih =>
    intro words stands
    obtain ⟨term, spell⟩ := ih stands
    exact ⟨[term], .lone spell⟩
  | joinedTerms _ _ ihFirst ihRest =>
    intro words stands
    obtain ⟨first, more, rfl, ofFirst, ofMore⟩ := stands.append
    obtain ⟨rest, rfl, ofRest⟩ := ofMore.fixed rfl
    obtain ⟨term, spellFirst⟩ := ihFirst ofFirst
    obtain ⟨terms, spellRest⟩ := ihRest ofRest
    exact ⟨term :: terms, .joined spellFirst spellRest⟩
  | adjacentTerms _ _ ihFirst ihRest =>
    intro words stands
    obtain ⟨first, rest, rfl, ofFirst, ofRest⟩ := stands.append
    obtain ⟨term, spellFirst⟩ := ihFirst ofFirst
    obtain ⟨terms, spellRest⟩ := ihRest ofRest
    exact ⟨term :: terms, .adjacent spellFirst spellRest⟩
  | unary negated _ ih =>
    intro words stands
    obtain ⟨rest, rfl, ofRest⟩ := stands.negation
    exact ih ofRest negated
  | group _ ih =>
    intro words stands negated
    obtain ⟨rest, rfl, ofRest⟩ := stands.fixed rfl
    obtain ⟨inner, rfl, ofInner⟩ := ofRest.last rfl
    obtain ⟨branches, spell⟩ := ih ofInner
    refine ⟨.group negated branches, ?_⟩
    simpa only [List.append_assoc, List.cons_append] using Spells.group spell
  | comparison _ ih =>
    intro words stands
    obtain ⟨key, test, proper, rfl⟩ := ih stands
    exact readable_atom (.comparison key test) proper
  | call _ ih =>
    intro words stands
    obtain ⟨function, parameters, proper, rfl⟩ := ih stands
    exact readable_atom (.call function parameters) proper
  | search mem =>
    intro words stands
    exact readable_search mem stands
  | relation mem _ ih =>
    intro words stands
    obtain ⟨op, rfl⟩ := Relation.exists_kind.2 mem
    refine readable_comparison stands fun ofTest => ?_
    obtain ⟨rest, rfl, ofRest⟩ := ofTest.fixed op.kind_isOpen
    obtain ⟨literal, rfl⟩ := ih ofRest
    exact ⟨.relation op literal, trivial, rfl⟩
  | pattern negated mem _ ih =>
    intro words stands
    obtain ⟨matcher, rfl⟩ := Matcher.exists_kind.2 mem
    refine readable_comparison stands fun ofTest => ?_
    obtain ⟨core, rfl, ofCore⟩ := ofTest.negation
    obtain ⟨rest, rfl, ofRest⟩ := ofCore.fixed matcher.kind_isOpen
    obtain ⟨literal, rfl⟩ := ih ofRest
    exact ⟨.pattern negated matcher literal, trivial, rfl⟩
  | between negated _ _ ihLow ihHigh =>
    intro words stands
    refine readable_comparison stands fun ofTest => ?_
    obtain ⟨core, rfl, ofCore⟩ := ofTest.negation
    obtain ⟨range, rfl, ofRange⟩ := ofCore.fixed rfl
    obtain ⟨first, rest, rfl, ofLow, ofRest⟩ := ofRange.append
    obtain ⟨last, rfl, ofHigh⟩ := ofRest.fixed rfl
    obtain ⟨low, rfl⟩ := ihLow ofLow
    obtain ⟨high, rfl⟩ := ihHigh ofHigh
    exact ⟨.between negated low high, trivial, rfl⟩
  | exist negated =>
    intro words stands
    refine readable_comparison stands fun ofTest => ?_
    obtain ⟨core, rfl, ofCore⟩ := ofTest.negation
    obtain ⟨rest, rfl, none⟩ := ofCore.fixed rfl
    rw [none.nil]
    exact ⟨.present negated, trivial, rfl⟩
  | inParens negated _ ih =>
    intro words stands
    refine readable_comparison stands fun ofTest => ?_
    obtain ⟨core, rfl, ofCore⟩ := ofTest.negation
    obtain ⟨operands, rfl, ofOperands⟩ := ofCore.fixed rfl
    obtain ⟨rest, rfl, ofRest⟩ := ofOperands.fixed rfl
    obtain ⟨inner, rfl, ofInner⟩ := ofRest.last rfl
    obtain ⟨values, nonempty, rfl⟩ := ih ofInner
    exact ⟨.among negated (.paren values), nonempty, rfl⟩
  | inBrackets negated _ ih =>
    intro words stands
    refine readable_comparison stands fun ofTest => ?_
    obtain ⟨core, rfl, ofCore⟩ := ofTest.negation
    obtain ⟨operands, rfl, ofOperands⟩ := ofCore.fixed rfl
    obtain ⟨rest, rfl, ofRest⟩ := ofOperands.fixed rfl
    obtain ⟨inner, rfl, ofInner⟩ := ofRest.last rfl
    obtain ⟨values, nonempty, rfl⟩ := ih ofInner
    exact ⟨.among negated (.bracket values), nonempty, rfl⟩
  | inSingle negated _ ih =>
    intro words stands
    refine readable_comparison stands fun ofTest => ?_
    obtain ⟨core, rfl, ofCore⟩ := ofTest.negation
    obtain ⟨rest, rfl, ofRest⟩ := ofCore.fixed rfl
    obtain ⟨literal, rfl⟩ := ih ofRest
    exact ⟨.among negated (.single literal), trivial, rfl⟩
  | calling mem _ ih =>
    intro words stands
    obtain ⟨function, rfl⟩ := Function.exists_kind.2 mem
    obtain ⟨after, rfl, ofAfter⟩ := stands.fixed function.kind_isOpen
    obtain ⟨rest, rfl, ofRest⟩ := ofAfter.fixed rfl
    obtain ⟨inner, rfl, ofInner⟩ := ofRest.last rfl
    obtain ⟨parameters, nonempty, each, rfl⟩ := ih ofInner
    exact ⟨function, parameters, ⟨nonempty, each⟩, rfl⟩
  | oneParameter _ ih =>
    intro words stands
    obtain ⟨parameter, proper, rfl⟩ := ih stands
    exact ⟨[parameter], by simp, by simpa using proper, rfl⟩
  | moreParameters _ _ ihFirst ihRest =>
    intro words stands
    obtain ⟨first, more, rfl, ofFirst, ofMore⟩ := stands.append
    obtain ⟨rest, rfl, ofRest⟩ := ofMore.fixed rfl
    obtain ⟨parameter, proper, rfl⟩ := ihFirst ofFirst
    obtain ⟨parameters, nonempty, each, rfl⟩ := ihRest ofRest
    refine ⟨parameter :: parameters, by simp, ?_, (commaWords_map_cons nonempty).symm⟩
    exact List.forall_mem_cons.2 ⟨proper, each⟩
  | valueParameter _ ih =>
    intro words stands
    exact readable_parameter (ih stands)
  | arrayParameter _ ih =>
    intro words stands
    obtain ⟨rest, rfl, ofRest⟩ := stands.fixed rfl
    obtain ⟨inner, rfl, ofInner⟩ := ofRest.last rfl
    obtain ⟨values, nonempty, rfl⟩ := ih ofInner
    exact ⟨.array values, nonempty, rfl⟩
  | oneValue _ ih =>
    intro words stands
    obtain ⟨literal, rfl⟩ := ih stands
    exact ⟨[literal], by simp, rfl⟩
  | moreValues _ _ ihFirst ihRest =>
    intro words stands
    obtain ⟨first, more, rfl, ofFirst, ofMore⟩ := stands.append
    obtain ⟨rest, rfl, ofRest⟩ := ofMore.fixed rfl
    obtain ⟨literal, rfl⟩ := ihFirst ofFirst
    obtain ⟨values, nonempty, rfl⟩ := ihRest ofRest
    exact ⟨literal :: values, by simp, (literalWords_cons nonempty).symm⟩
  | value mem =>
    intro words stands
    exact readable_value mem stands

/-- A text whose tokens are all known is read without errors exactly when it has no tokens or the
grammar derives their kinds; and then the words of what is read are those of the tokens, from left
to right, where an `AND` between two terms may be left out. -/
theorem read_clean_iff_derives {text : String} (clean : (lex text).errors = []) :
    ((read text).errors = [] ↔
      (lex text).tokens = [] ∨ Derives .or ((lex text).tokens.map Token.kind)) ∧
    ((read text).errors = [] →
      Query.Spelled (read text).query ((lex text).tokens.map Token.word)) := by
  have kindsOf : (lex text).tokens.map Token.kind = kinds ((lex text).tokens.map Token.word) := by
    rw [kinds, List.map_map]
    rfl
  refine ⟨⟨fun accepted => ?_, fun derivable => ?_⟩, fun accepted => (read_sound accepted).2⟩
  · have spelled := (read_sound accepted).2
    cases query : (read text).query with
    | none =>
      rw [query] at spelled
      exact .inl (List.map_eq_nil_iff.1 spelled)
    | some branches =>
      rw [query] at spelled
      rw [kindsOf]
      exact .inr (Spells.derives spelled)
  · rcases derivable with empty | derives
    · have blank : Query.Spelled none ((lex text).tokens.map Token.word) := by
        rw [empty]
        rfl
      exact (read_complete clean blank).1
    · obtain ⟨branches, spell⟩ := derives.readable ⟨(lex text).tokens, rfl, rfl⟩
      have spelled : Query.Spelled (some branches) ((lex text).tokens.map Token.word) := spell
      exact (read_complete clean spelled).1

/-- Every kind of term and both ways to join terms, between a negated group and a call. -/
theorem mixed_filter_derives :
    let text := "a NOT IN (1, 'x') b.c >= true AND NOT (d BETWEEN 1 AND e OR f) OR has(g, [2])"
    (lex text).errors = [] ∧ (read text).errors = [] ∧
      Derives .or ((lex text).tokens.map Token.kind) ∧
      Query.Spelled (read text).query ((lex text).tokens.map Token.word) := by
  intro text
  obtain ⟨clean, accepted, nonempty⟩ : (lex text).errors = [] ∧ (read text).errors = [] ∧
      (lex text).tokens ≠ [] := by decide +kernel
  obtain ⟨derivable, spelled⟩ := read_clean_iff_derives clean
  exact ⟨clean, accepted, (derivable.1 accepted).resolve_left nonempty, spelled accepted⟩

end TelemetryQuery.Filter
