import TelemetryQuery.Having.Parser
/- The words of conditions on results, and the grammar that they follow. -/
namespace TelemetryQuery.Having

/-- Whether tokens of a kind have a text of their own, which the kind does not fix. -/
def Kind.isOpen : Kind → Bool
  | .bool | .number | .quotedText | .identifier => true
  | _ => false

/-- A kind of token with its text; the text is left out where the kind fixes it. -/
structure Word where
  kind : Kind
  text : String
deriving DecidableEq, Repr, Inhabited

namespace Word

/-- The word of a kind that fixes its text. -/
def fixed (kind : Kind) : Word :=
  ⟨kind, ""⟩

def ofText (kind : Kind) (text : String) : Word :=
  ⟨kind, if kind.isOpen then text else ""⟩

@[simp]
theorem fixed_kind (kind : Kind) : (fixed kind).kind = kind :=
  rfl

@[simp]
theorem ofText_kind (kind : Kind) (text : String) : (ofText kind text).kind = kind :=
  rfl

end Word

def Token.word (token : Token) : Word :=
  .ofText token.kind token.text

@[simp]
theorem Token.word_kind (token : Token) : token.word.kind = token.kind :=
  rfl

theorem Token.word_fixed {token : Token} {kind : Kind} (closed : kind.isOpen = false) :
    token.word = .fixed kind ↔ token.kind = kind := by
  constructor
  · intro same
    exact congrArg Word.kind same
  · intro same
    simp [Token.word, Word.ofText, Word.fixed, same, closed]

theorem Token.word_open {token : Token} {kind : Kind} {text : String}
    (opened : kind.isOpen = true) :
    token.word = ⟨kind, text⟩ ↔ token.kind = kind ∧ token.text = text := by
  constructor
  · intro same
    have kinds : token.kind = kind := congrArg Word.kind same
    have texts := congrArg Word.text same
    simp only [Token.word, Word.ofText, kinds, opened, if_true] at texts
    exact ⟨kinds, texts⟩
  · rintro ⟨rfl, rfl⟩
    simp [Token.word, Word.ofText, opened]

/-- Whether an operator binds its operands together as a product does. -/
def Arithmetic.isProduct : Arithmetic → Bool
  | .add | .subtract => false
  | .multiply | .divide | .remainder => true

theorem additive?_eq_some {kind : Kind} {op : Arithmetic} :
    additive? kind = some op ↔ kind = .arithmetic op ∧ op.isProduct = false := by
  constructor
  · intro found
    revert found
    fun_cases additive? kind <;> rintro ⟨⟩ <;> exact ⟨rfl, rfl⟩
  · rintro ⟨rfl, sum⟩
    cases op <;> first | rfl | cases sum

theorem multiplicative?_eq_some {kind : Kind} {op : Arithmetic} :
    multiplicative? kind = some op ↔ kind = .arithmetic op ∧ op.isProduct = true := by
  constructor
  · intro found
    revert found
    fun_cases multiplicative? kind <;> rintro ⟨⟩ <;> exact ⟨rfl, rfl⟩
  · rintro ⟨rfl, product⟩
    cases op <;> first | rfl | cases product

/-- The operator that is a sign. -/
def signOperator (negative : Bool) : Arithmetic :=
  if negative then .subtract else .add

theorem signOf?_eq_some {kind : Kind} {negative : Bool} :
    signOf? kind = some negative ↔ kind = .arithmetic (signOperator negative) := by
  constructor
  · intro found
    revert found
    fun_cases signOf? kind <;> rintro ⟨⟩ <;> rfl
  · rintro rfl
    cases negative <;> rfl

inductive Phrase where
  | factor (operand : Operand)
  | term (operand : Operand)
  | operand (operand : Operand)
  /-- The arguments of a call, with the bracket that closes it. -/
  | arguments (operands : List Operand)
  | primary (expr : Expr)
  | conjuncts (exprs : List Expr)
  | branches (exprs : List Expr)

/-- The words that a part of a condition stands for, from left to right. Signs bind before
products, products before sums, sums before comparisons; operators of one rank group to the left. -/
inductive Spells : Phrase → List Word → Prop
  | number {text : String} : Spells (.factor (.number text)) [⟨.number, text⟩]
  | quoted {raw : String} : Spells (.factor (.quoted raw)) [⟨.quotedText, raw⟩]
  | identifier {name : String} : Spells (.factor (.identifier name)) [⟨.identifier, name⟩]
  | signed {negative : Bool} {operand : Operand} {words : List Word} :
      Spells (.factor operand) words →
      Spells (.factor (.signed negative operand))
        (.fixed (.arithmetic (signOperator negative)) :: words)
  | paren {operand : Operand} {words : List Word} : Spells (.operand operand) words →
      Spells (.factor (.paren operand)) (.fixed .lparen :: words ++ [.fixed .rparen])
  | bareCall {name : String} :
      Spells (.factor (.call name [])) [⟨.identifier, name⟩, .fixed .lparen, .fixed .rparen]
  | call {name : String} {operands : List Operand} {words : List Word} :
      Spells (.arguments operands) words →
      Spells (.factor (.call name operands)) (⟨.identifier, name⟩ :: .fixed .lparen :: words)
  | lastArgument {operand : Operand} {words : List Word} : Spells (.operand operand) words →
      Spells (.arguments [operand]) (words ++ [.fixed .rparen])
  | argument {operand : Operand} {operands : List Operand} {first rest : List Word} :
      Spells (.operand operand) first → Spells (.arguments operands) rest →
      Spells (.arguments (operand :: operands)) (first ++ .fixed .comma :: rest)
  | ofFactor {operand : Operand} {words : List Word} : Spells (.factor operand) words →
      Spells (.term operand) words
  | product {left right : Operand} {op : Arithmetic} {first rest : List Word} :
      op.isProduct = true → Spells (.term left) first → Spells (.factor right) rest →
      Spells (.term (.binary left op right)) (first ++ .fixed (.arithmetic op) :: rest)
  | ofTerm {operand : Operand} {words : List Word} : Spells (.term operand) words →
      Spells (.operand operand) words
  | sum {left right : Operand} {op : Arithmetic} {first rest : List Word} :
      op.isProduct = false → Spells (.operand left) first → Spells (.term right) rest →
      Spells (.operand (.binary left op right)) (first ++ .fixed (.arithmetic op) :: rest)
  | comparison {left right : Operand} {op : Comparison} {first rest : List Word} :
      Spells (.operand left) first → Spells (.operand right) rest →
      Spells (.primary (.comparison left op right)) (first ++ .fixed (.comparison op) :: rest)
  | group {exprs : List Expr} {words : List Word} : Spells (.branches exprs) words →
      Spells (.primary (.group (collapse .or exprs)))
        (.fixed .lparen :: words ++ [.fixed .rparen])
  | not {exprs : List Expr} {words : List Word} : Spells (.branches exprs) words →
      Spells (.primary (.not (collapse .or exprs)))
        (.fixed .not :: .fixed .lparen :: words ++ [.fixed .rparen])
  | lone {expr : Expr} {words : List Word} : Spells (.primary expr) words →
      Spells (.conjuncts [expr]) words
  | both {expr : Expr} {exprs : List Expr} {first rest : List Word} :
      Spells (.primary expr) first → Spells (.conjuncts exprs) rest →
      Spells (.conjuncts (expr :: exprs)) (first ++ .fixed .and :: rest)
  | only {exprs : List Expr} {words : List Word} : Spells (.conjuncts exprs) words →
      Spells (.branches [collapse .and exprs]) words
  | either {exprs others : List Expr} {first rest : List Word} :
      Spells (.conjuncts exprs) first → Spells (.branches others) rest →
      Spells (.branches (collapse .and exprs :: others)) (first ++ .fixed .or :: rest)

def Expr.Spelled (expr : Expr) (words : List Word) : Prop :=
  ∃ exprs, expr = collapse .or exprs ∧ Spells (.branches exprs) words

end TelemetryQuery.Having
