import TelemetryQuery.Filter.Parser
/- Words: what tokens say apart from where they stand, and the words of an expression. -/
namespace TelemetryQuery.Filter

/-- Whether tokens of a kind have a text of their own, which the kind does not fix. -/
def Kind.isOpen : Kind → Bool
  | .bool | .number | .quotedText | .key | .freeText => true
  | _ => false

/-- A kind of token with its text; the text is left out where the kind fixes it. -/
structure Word where
  kind : Kind
  text : String
deriving DecidableEq, Repr, Inhabited

namespace Word

/-- The word of a kind that fixes its text. -/
def fixed (kind : Kind) : Word :=
  ⟨kind, ""⟩

def ofText (kind : Kind) (text : String) : Word :=
  ⟨kind, if kind.isOpen then text else ""⟩

@[simp]
theorem fixed_kind (kind : Kind) : (fixed kind).kind = kind :=
  rfl

end Word

def Token.word (token : Token) : Word :=
  .ofText token.kind token.text

@[simp]
theorem Token.word_kind (token : Token) : token.word.kind = token.kind :=
  rfl

/-- A token of a kind that fixes its text is that kind's word. -/
theorem Token.word_fixed {token : Token} {kind : Kind} (closed : kind.isOpen = false) :
    token.word = .fixed kind ↔ token.kind = kind := by
  constructor
  · intro h
    exact congrArg Word.kind h
  · intro h
    simp only [Token.word, Word.ofText, Word.fixed, h, closed, Bool.false_eq_true, if_false]

/-- A token of a kind that leaves its text open is that kind's word with its own text. -/
theorem Token.word_open {token : Token} {kind : Kind} {text : String}
    (opened : kind.isOpen = true) :
    token.word = ⟨kind, text⟩ ↔ token.kind = kind ∧ token.text = text := by
  constructor
  · intro h
    have same : token.kind = kind := congrArg Word.kind h
    have texts := congrArg Word.text h
    simp only [Token.word, Word.ofText, same, opened, if_true] at texts
    exact ⟨same, texts⟩
  · rintro ⟨rfl, rfl⟩
    simp only [Token.word, Word.ofText, opened, if_true]

def negationWords (negated : Bool) : List Word :=
  if negated then [.fixed .not] else []

/-- Lists of words with commas between neighbours. -/
def commaWords : List (List Word) → List Word
  | [] => []
  | [words] => words
  | words :: rest => words ++ .fixed .comma :: commaWords rest

def Literal.word : Literal → Word
  | quoted raw => ⟨.quotedText, raw⟩
  | number raw => ⟨.number, raw⟩
  | bool raw => ⟨.bool, raw⟩
  | key raw => ⟨.key, raw⟩

def literalWords (values : List Literal) : List Word :=
  commaWords (values.map fun value => [value.word])

def KeyRef.word (key : KeyRef) : Word :=
  ⟨.key, key.text⟩

def Relation.kind : Relation → Kind
  | equal => .equals
  | notEqual => .notEquals
  | unequal => .neq
  | less => .lt
  | lessEq => .le
  | greater => .gt
  | greaterEq => .ge

def Matcher.kind : Matcher → Kind
  | like => .like
  | ilike => .ilike
  | regexp => .regexp
  | contains => .contains

def Function.kind : Function → Kind
  | has => .has
  | hasAny => .hasAny
  | hasAll => .hasAll
  | hasToken => .hasToken

def Operands.words : Operands → List Word
  | paren values => .fixed .lparen :: literalWords values ++ [.fixed .rparen]
  | bracket values => .fixed .lbrack :: literalWords values ++ [.fixed .rbrack]
  | single value => [value.word]

/-- Whether a negation stands before a test. -/
def Test.negated : Test → Bool
  | relation _ _ => false
  | pattern negated _ _ => negated
  | between negated _ _ => negated
  | among negated _ => negated
  | present negated => negated

/-- The words of a test behind its negation. -/
def Test.core : Test → List Word
  | relation op value => [.fixed op.kind, value.word]
  | pattern _ matcher value => [.fixed matcher.kind, value.word]
  | between _ low high => [.fixed .between, low.word, .fixed .and, high.word]
  | among _ operands => .fixed .isIn :: operands.words
  | present _ => [.fixed .exist]

def Test.words (test : Test) : List Word :=
  negationWords test.negated ++ test.core

def Parameter.words : Parameter → List Word
  | key ref => [ref.word]
  | value literal => [literal.word]
  | array values => .fixed .lbrack :: literalWords values ++ [.fixed .rbrack]

def Atom.words : Atom → List Word
  | comparison key test => key.word :: test.words
  | call function parameters =>
    .fixed function.kind :: .fixed .lparen :: commaWords (parameters.map Parameter.words) ++
      [.fixed .rparen]
  | quotedText raw => [⟨.quotedText, raw⟩]
  | freeText text => [⟨.freeText, text⟩]
  | bareKey key => [key.word]
  | bareValue value => [value.word]

/-- Operands between brackets are one at least. -/
def Operands.Proper : Operands → Prop
  | paren values => values ≠ []
  | bracket values => values ≠ []
  | single _ => True

def Test.Proper : Test → Prop
  | among _ operands => operands.Proper
  | _ => True

/-- A key that is a parameter is kept with its place, and never as a literal. -/
def Parameter.Proper : Parameter → Prop
  | key _ => True
  | value literal => literal.word.kind ≠ .key
  | array values => values ≠ []

/-- An atom in the one form that reading gives it. -/
def Atom.Proper : Atom → Prop
  | comparison _ test => test.Proper
  | call _ parameters => parameters ≠ [] ∧ ∀ parameter ∈ parameters, parameter.Proper
  | bareValue value => value.word.kind = .number ∨ value.word.kind = .bool
  | _ => True

/-- A part of an expression with terms in it. -/
inductive Phrase where
  | term (term : Term)
  | terms (terms : Conjunction)
  | branches (branches : Disjunction)

/-- The words that a part of an expression stands for, from left to right. Between two terms an
`AND` may stand or not; everything else is fixed. -/
inductive Spells : Phrase → List Word → Prop
  | atom {negated : Bool} {atom : Atom} : atom.Proper →
      Spells (.term (.atom negated atom)) (negationWords negated ++ atom.words)
  | group {negated : Bool} {branches : Disjunction} {words : List Word} :
      Spells (.branches branches) words →
      Spells (.term (.group negated branches))
        (negationWords negated ++ .fixed .lparen :: words ++ [.fixed .rparen])
  | lone {term : Term} {words : List Word} : Spells (.term term) words →
      Spells (.terms [term]) words
  | joined {term : Term} {terms : Conjunction} {first rest : List Word} :
      Spells (.term term) first → Spells (.terms terms) rest →
      Spells (.terms (term :: terms)) (first ++ .fixed .and :: rest)
  | adjacent {term : Term} {terms : Conjunction} {first rest : List Word} :
      Spells (.term term) first → Spells (.terms terms) rest →
      Spells (.terms (term :: terms)) (first ++ rest)
  | only {terms : Conjunction} {words : List Word} : Spells (.terms terms) words →
      Spells (.branches [terms]) words
  | either {terms : Conjunction} {branches : Disjunction} {first rest : List Word} :
      Spells (.terms terms) first → Spells (.branches branches) rest →
      Spells (.branches (terms :: branches)) (first ++ .fixed .or :: rest)

/-- The words that a filter stands for; blank text is none. -/
def Query.Spelled : Query → List Word → Prop
  | none, words => words = []
  | some branches, words => Spells (.branches branches) words

mutual

/-- The terms without parts that a term is made of, from left to right. -/
def Term.atoms : Term → List Atom
  | .atom _ atom => [atom]
  | .group _ branches => branchesAtoms branches

def branchesAtoms : List (List Term) → List Atom
  | [] => []
  | terms :: rest => termsAtoms terms ++ branchesAtoms rest

def termsAtoms : List Term → List Atom
  | [] => []
  | term :: rest => term.atoms ++ termsAtoms rest

end

def Query.atoms (query : Query) : List Atom :=
  query.elim [] branchesAtoms

def Phrase.atoms : Phrase → List Atom
  | .term part => part.atoms
  | .terms parts => termsAtoms parts
  | .branches parts => branchesAtoms parts

/-- A key as if it stood at the start of the text. -/
def KeyRef.unplaced (key : KeyRef) : KeyRef :=
  { key with place := .start }

def Parameter.unplaced : Parameter → Parameter
  | key ref => key ref.unplaced
  | parameter => parameter

def Atom.unplaced : Atom → Atom
  | comparison key test => comparison key.unplaced test
  | call function parameters => call function (parameters.map Parameter.unplaced)
  | bareKey key => bareKey key.unplaced
  | atom => atom

mutual

def Term.unplaced : Term → Term
  | .atom negated atom => .atom negated atom.unplaced
  | .group negated branches => .group negated (unplacedBranches branches)

def unplacedBranches : List (List Term) → List (List Term)
  | [] => []
  | terms :: rest => unplacedTerms terms :: unplacedBranches rest

def unplacedTerms : List Term → List Term
  | [] => []
  | term :: rest => term.unplaced :: unplacedTerms rest

end

/-- A filter without the places of its keys: all that is said in it. -/
def Query.unplaced (query : Query) : Query :=
  query.map unplacedBranches

end TelemetryQuery.Filter
