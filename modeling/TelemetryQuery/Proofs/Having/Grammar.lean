import Mathlib.Data.List.Induction
import TelemetryQuery.Proofs.Having.Acceptance
/- The grammar of conditions on results, and that reading finds the only derivation of a text. -/
namespace TelemetryQuery.Having

/-- The symbols of the grammar. A list of parts has a symbol of its own for those after the
first. -/
inductive Symbol where
  | or
  | orRest
  | and
  | andRest
  | primary
  | operand
  | operandRest
  | term
  | termRest
  | factor
  | argumentRest
deriving DecidableEq, Repr

/-- The derivations from a symbol, one constructor for each way to go on:

    or       := and (OR and)*
    and      := primary (AND primary)*
    primary  := NOT '(' or ')' | '(' or ')' | operand comparison operand
    operand  := term ((+ | -) term)*
    term     := factor ((* | / | %) factor)*
    factor   := (+ | -) factor | '(' operand ')' | identifier | number | quoted
              | identifier '(' ')' | identifier '(' operand (',' operand)* ')'
-/
inductive Derivation : Symbol → Type where
  | or (first : Derivation .and) (rest : Derivation .orRest) : Derivation .or
  | orEnd : Derivation .orRest
  | orMore (next : Derivation .and) (rest : Derivation .orRest) : Derivation .orRest
  | and (first : Derivation .primary) (rest : Derivation .andRest) : Derivation .and
  | andEnd : Derivation .andRest
  | andMore (next : Derivation .primary) (rest : Derivation .andRest) : Derivation .andRest
  | not (inner : Derivation .or) : Derivation .primary
  | group (inner : Derivation .or) : Derivation .primary
  | comparison (left : Derivation .operand) (op : Comparison) (right : Derivation .operand) :
      Derivation .primary
  | operand (first : Derivation .term) (rest : Derivation .operandRest) : Derivation .operand
  | operandEnd : Derivation .operandRest
  | operandMore (op : Arithmetic) (isSum : op.isProduct = false) (next : Derivation .term)
      (rest : Derivation .operandRest) : Derivation .operandRest
  | term (first : Derivation .factor) (rest : Derivation .termRest) : Derivation .term
  | termEnd : Derivation .termRest
  | termMore (op : Arithmetic) (isProduct : op.isProduct = true) (next : Derivation .factor)
      (rest : Derivation .termRest) : Derivation .termRest
  | signed (negative : Bool) (inner : Derivation .factor) : Derivation .factor
  | paren (inner : Derivation .operand) : Derivation .factor
  | identifier (name : String) : Derivation .factor
  | number (text : String) : Derivation .factor
  | quoted (raw : String) : Derivation .factor
  | bareCall (name : String) : Derivation .factor
  | call (name : String) (first : Derivation .operand) (rest : Derivation .argumentRest) :
      Derivation .factor
  | argumentEnd : Derivation .argumentRest
  | argumentMore (next : Derivation .operand) (rest : Derivation .argumentRest) :
      Derivation .argumentRest

/-- What a derivation from a symbol builds. -/
@[reducible]
def Symbol.Tree : Symbol → Type
  | .or | .and | .primary => Expr
  | .orRest | .andRest => List Expr
  | .operand | .term | .factor => Operand
  | .operandRest | .termRest => List (Arithmetic × Operand)
  | .argumentRest => List Operand

/-- An operand with further ones joined to it, from left to right. -/
def joinLeft (first : Operand) (rest : List (Arithmetic × Operand)) : Operand :=
  rest.foldl (fun left next => .binary left next.1 next.2) first

namespace Derivation

/-- The words that a derivation ends in. -/
def words : {symbol : Symbol} → Derivation symbol → List Word
  | _, .or first rest => first.words ++ rest.words
  | _, .orEnd => []
  | _, .orMore next rest => .fixed .or :: next.words ++ rest.words
  | _, .and first rest => first.words ++ rest.words
  | _, .andEnd => []
  | _, .andMore next rest => .fixed .and :: next.words ++ rest.words
  | _, .not inner => .fixed .not :: .fixed .lparen :: inner.words ++ [.fixed .rparen]
  | _, .group inner => .fixed .lparen :: inner.words ++ [.fixed .rparen]
  | _, .comparison left op right => left.words ++ .fixed (.comparison op) :: right.words
  | _, .operand first rest => first.words ++ rest.words
  | _, .operandEnd => []
  | _, .operandMore op _ next rest => .fixed (.arithmetic op) :: next.words ++ rest.words
  | _, .term first rest => first.words ++ rest.words
  | _, .termEnd => []
  | _, .termMore op _ next rest => .fixed (.arithmetic op) :: next.words ++ rest.words
  | _, .signed negative inner => .fixed (.arithmetic (signOperator negative)) :: inner.words
  | _, .paren inner => .fixed .lparen :: inner.words ++ [.fixed .rparen]
  | _, .identifier name => [⟨.identifier, name⟩]
  | _, .number text => [⟨.number, text⟩]
  | _, .quoted raw => [⟨.quotedText, raw⟩]
  | _, .bareCall name => [⟨.identifier, name⟩, .fixed .lparen, .fixed .rparen]
  | _, .call name first rest =>
    ⟨.identifier, name⟩ :: .fixed .lparen :: (first.words ++ rest.words) ++ [.fixed .rparen]
  | _, .argumentEnd => []
  | _, .argumentMore next rest => .fixed .comma :: next.words ++ rest.words

/-- The tree of a derivation. Conditions alone in a list stay as they are, and operators of one
rank group to the left. -/
def tree : {symbol : Symbol} → Derivation symbol → symbol.Tree
  | _, .or first rest => collapse .or (first.tree :: rest.tree)
  | _, .orEnd => []
  | _, .orMore next rest => next.tree :: rest.tree
  | _, .and first rest => collapse .and (first.tree :: rest.tree)
  | _, .andEnd => []
  | _, .andMore next rest => next.tree :: rest.tree
  | _, .not inner => Expr.not inner.tree
  | _, .group inner => Expr.group inner.tree
  | _, .comparison left op right => Expr.comparison left.tree op right.tree
  | _, .operand first rest => joinLeft first.tree rest.tree
  | _, .operandEnd => []
  | _, .operandMore op _ next rest => (op, next.tree) :: rest.tree
  | _, .term first rest => joinLeft first.tree rest.tree
  | _, .termEnd => []
  | _, .termMore op _ next rest => (op, next.tree) :: rest.tree
  | _, .signed negative inner => Operand.signed negative inner.tree
  | _, .paren inner => Operand.paren inner.tree
  | _, .identifier name => Operand.identifier name
  | _, .number text => Operand.number text
  | _, .quoted raw => Operand.quoted raw
  | _, .bareCall name => Operand.call name []
  | _, .call name first rest => Operand.call name (first.tree :: rest.tree)
  | _, .argumentEnd => []
  | _, .argumentMore next rest => next.tree :: rest.tree

end Derivation

/-- What the words of a derivation spell: the tree, or a list with the tree as its rest, whatever
stands first in it. -/
def Symbol.Spelled : (symbol : Symbol) → symbol.Tree → List Word → Prop
  | .or, expr, words => expr.Spelled words
  | .orRest, others, words => ∀ exprs first, Spells (.conjuncts exprs) first →
      Spells (.branches (collapse .and exprs :: others)) (first ++ words)
  | .and, expr, words => ∃ exprs, expr = collapse .and exprs ∧ Spells (.conjuncts exprs) words
  | .andRest, others, words => ∀ expr first, Spells (.primary expr) first →
      Spells (.conjuncts (expr :: others)) (first ++ words)
  | .primary, expr, words => Spells (.primary expr) words
  | .operand, part, words => Spells (.operand part) words
  | .operandRest, others, words => ∀ left first, Spells (.operand left) first →
      Spells (.operand (joinLeft left others)) (first ++ words)
  | .term, part, words => Spells (.term part) words
  | .termRest, others, words => ∀ left first, Spells (.term left) first →
      Spells (.term (joinLeft left others)) (first ++ words)
  | .factor, part, words => Spells (.factor part) words
  | .argumentRest, others, words => ∀ part first, Spells (.operand part) first →
      Spells (.arguments (part :: others)) (first ++ words ++ [.fixed .rparen])

theorem Derivation.spelled {symbol : Symbol} (derivation : Derivation symbol) :
    symbol.Spelled derivation.tree derivation.words := by
  induction derivation with
  | or first rest ihFirst ihRest =>
    obtain ⟨exprs, same, spells⟩ := ihFirst
    refine ⟨first.tree :: rest.tree, rfl, ?_⟩
    rw [same]
    exact ihRest exprs first.words spells
  | orEnd =>
    intro exprs first spells
    rw [words, List.append_nil]
    exact .only spells
  | orMore next rest ihNext ihRest =>
    intro exprs first spells
    obtain ⟨others, same, spellsNext⟩ := ihNext
    have spellsRest := ihRest others next.words spellsNext
    rw [← same] at spellsRest
    exact .either spells spellsRest
  | and first rest ihFirst ihRest =>
    exact ⟨first.tree :: rest.tree, rfl, ihRest first.tree first.words ihFirst⟩
  | andEnd =>
    intro expr first spells
    rw [words, List.append_nil]
    exact .lone spells
  | andMore next rest ihNext ihRest =>
    intro expr first spells
    exact .both spells (ihRest next.tree next.words ihNext)
  | not inner ih =>
    obtain ⟨exprs, same, spells⟩ := ih
    have whole := Spells.not spells
    rw [← same] at whole
    exact whole
  | group inner ih =>
    obtain ⟨exprs, same, spells⟩ := ih
    have whole := Spells.group spells
    rw [← same] at whole
    exact whole
  | comparison left op right ihLeft ihRight => exact .comparison ihLeft ihRight
  | operand first rest ihFirst ihRest => exact ihRest first.tree first.words (.ofTerm ihFirst)
  | operandEnd =>
    intro left first spells
    rw [words, List.append_nil]
    exact spells
  | operandMore op isSum next rest ihNext ihRest =>
    intro left first spells
    have joined := ihRest _ _ (.sum isSum spells ihNext)
    rw [List.append_assoc] at joined
    exact joined
  | term first rest ihFirst ihRest => exact ihRest first.tree first.words (.ofFactor ihFirst)
  | termEnd =>
    intro left first spells
    rw [words, List.append_nil]
    exact spells
  | termMore op isProduct next rest ihNext ihRest =>
    intro left first spells
    have joined := ihRest _ _ (.product isProduct spells ihNext)
    rw [List.append_assoc] at joined
    exact joined
  | signed negative inner ih => exact .signed ih
  | paren inner ih => exact .paren ih
  | identifier name => exact .identifier
  | number text => exact .number
  | quoted raw => exact .quoted
  | bareCall name => exact .bareCall
  | call name first rest ihFirst ihRest => exact .call (ihRest first.tree first.words ihFirst)
  | argumentEnd =>
    intro part first spells
    rw [words, List.append_nil]
    exact .lastArgument spells
  | argumentMore next rest ihNext ihRest =>
    intro part first spells
    have whole := Spells.argument spells (ihRest next.tree next.words ihNext)
    rw [words, List.append_assoc]
    exact whole

/-- One more term at the end of a sum. -/
theorem Derivation.exists_operandMore {op : Arithmetic} (isSum : op.isProduct = false)
    (last : Derivation .term) : (rest : Derivation .operandRest) →
    ∃ more : Derivation .operandRest, more.tree = rest.tree ++ [(op, last.tree)] ∧
      more.words = rest.words ++ .fixed (.arithmetic op) :: last.words
  | .operandEnd => by
    refine ⟨.operandMore op isSum last .operandEnd, rfl, ?_⟩
    simp [words]
  | .operandMore other isSumToo next rest => by
    obtain ⟨more, tree, words⟩ := exists_operandMore isSum last rest
    refine ⟨.operandMore other isSumToo next more, ?_, ?_⟩
    · rw [Derivation.tree, Derivation.tree, tree, List.cons_append]
    · simp [Derivation.words, words]

/-- One more factor at the end of a product. -/
theorem Derivation.exists_termMore {op : Arithmetic} (isProduct : op.isProduct = true)
    (last : Derivation .factor) : (rest : Derivation .termRest) →
    ∃ more : Derivation .termRest, more.tree = rest.tree ++ [(op, last.tree)] ∧
      more.words = rest.words ++ .fixed (.arithmetic op) :: last.words
  | .termEnd => by
    refine ⟨.termMore op isProduct last .termEnd, rfl, ?_⟩
    simp [words]
  | .termMore other isProductToo next rest => by
    obtain ⟨more, tree, words⟩ := exists_termMore isProduct last rest
    refine ⟨.termMore other isProductToo next more, ?_, ?_⟩
    · rw [Derivation.tree, Derivation.tree, tree, List.cons_append]
    · simp [Derivation.words, words]

theorem joinLeft_append (first : Operand) (rest : List (Arithmetic × Operand)) (op : Arithmetic)
    (last : Operand) :
    joinLeft first (rest ++ [(op, last)]) = .binary (joinLeft first rest) op last :=
  List.foldl_append

/-- A derivation of a part of a condition. -/
def Phrase.Derived : Phrase → List Word → Prop
  | .factor part, words => ∃ derivation : Derivation .factor,
      derivation.tree = part ∧ derivation.words = words
  | .term part, words => ∃ derivation : Derivation .term,
      derivation.tree = part ∧ derivation.words = words
  | .operand part, words => ∃ derivation : Derivation .operand,
      derivation.tree = part ∧ derivation.words = words
  | .arguments parts, words => ∃ (first : Derivation .operand) (rest : Derivation .argumentRest),
      first.tree :: rest.tree = parts ∧ first.words ++ rest.words ++ [.fixed .rparen] = words
  | .primary expr, words => ∃ derivation : Derivation .primary,
      derivation.tree = expr ∧ derivation.words = words
  | .conjuncts exprs, words => ∃ (first : Derivation .primary) (rest : Derivation .andRest),
      first.tree :: rest.tree = exprs ∧ first.words ++ rest.words = words
  | .branches exprs, words => ∃ (first : Derivation .and) (rest : Derivation .orRest),
      first.tree :: rest.tree = exprs ∧ first.words ++ rest.words = words

theorem Spells.derived {phrase : Phrase} {words : List Word} (spell : Spells phrase words) :
    phrase.Derived words := by
  induction spell with
  | @number text => exact ⟨.number text, rfl, rfl⟩
  | @quoted raw => exact ⟨.quoted raw, rfl, rfl⟩
  | @identifier name => exact ⟨.identifier name, rfl, rfl⟩
  | @signed negative _ _ _ ih =>
    obtain ⟨inner, rfl, rfl⟩ := ih
    exact ⟨.signed negative inner, rfl, rfl⟩
  | paren _ ih =>
    obtain ⟨inner, rfl, rfl⟩ := ih
    exact ⟨.paren inner, rfl, rfl⟩
  | @bareCall name => exact ⟨.bareCall name, rfl, rfl⟩
  | @call name _ _ _ ih =>
    obtain ⟨first, rest, rfl, rfl⟩ := ih
    exact ⟨.call name first rest, rfl, rfl⟩
  | lastArgument _ ih =>
    obtain ⟨first, rfl, rfl⟩ := ih
    refine ⟨first, .argumentEnd, rfl, ?_⟩
    rw [Derivation.words, List.append_nil]
  | argument _ _ ihFirst ihRest =>
    obtain ⟨first, rfl, rfl⟩ := ihFirst
    obtain ⟨next, rest, rfl, rfl⟩ := ihRest
    refine ⟨first, .argumentMore next rest, rfl, ?_⟩
    simp [Derivation.words]
  | ofFactor _ ih =>
    obtain ⟨first, rfl, rfl⟩ := ih
    exact ⟨.term first .termEnd, rfl, List.append_nil _⟩
  | product isProduct _ _ ihFirst ihRest =>
    obtain ⟨derivation, rfl, rfl⟩ := ihFirst
    obtain ⟨last, rfl, rfl⟩ := ihRest
    -- The grammar lists the factors from the left, a spelled product ends in its last one.
    cases derivation with
    | term first rest =>
      obtain ⟨more, tree, words⟩ := Derivation.exists_termMore isProduct last rest
      refine ⟨.term first more, ?_, ?_⟩
      · rw [Derivation.tree, tree, joinLeft_append]
        rfl
      · rw [Derivation.words, words, Derivation.words, List.append_assoc]
  | ofTerm _ ih =>
    obtain ⟨first, rfl, rfl⟩ := ih
    exact ⟨.operand first .operandEnd, rfl, List.append_nil _⟩
  | sum isSum _ _ ihFirst ihRest =>
    obtain ⟨derivation, rfl, rfl⟩ := ihFirst
    obtain ⟨last, rfl, rfl⟩ := ihRest
    cases derivation with
    | operand first rest =>
      obtain ⟨more, tree, words⟩ := Derivation.exists_operandMore isSum last rest
      refine ⟨.operand first more, ?_, ?_⟩
      · rw [Derivation.tree, tree, joinLeft_append]
        rfl
      · rw [Derivation.words, words, Derivation.words, List.append_assoc]
  | @comparison _ _ op _ _ _ _ ihFirst ihRest =>
    obtain ⟨left, rfl, rfl⟩ := ihFirst
    obtain ⟨right, rfl, rfl⟩ := ihRest
    exact ⟨.comparison left op right, rfl, rfl⟩
  | group _ ih =>
    obtain ⟨first, rest, rfl, rfl⟩ := ih
    exact ⟨.group (.or first rest), rfl, rfl⟩
  | not _ ih =>
    obtain ⟨first, rest, rfl, rfl⟩ := ih
    exact ⟨.not (.or first rest), rfl, rfl⟩
  | lone _ ih =>
    obtain ⟨first, rfl, rfl⟩ := ih
    exact ⟨first, .andEnd, rfl, List.append_nil _⟩
  | both _ _ ihFirst ihRest =>
    obtain ⟨first, rfl, rfl⟩ := ihFirst
    obtain ⟨next, rest, rfl, rfl⟩ := ihRest
    exact ⟨first, .andMore next rest, rfl, rfl⟩
  | only _ ih =>
    obtain ⟨first, rest, rfl, rfl⟩ := ih
    exact ⟨.and first rest, .orEnd, rfl, List.append_nil _⟩
  | either _ _ ihFirst ihRest =>
    obtain ⟨first, rest, rfl, rfl⟩ := ihFirst
    obtain ⟨next, more, rfl, rfl⟩ := ihRest
    exact ⟨.and first rest, .orMore next more, rfl, rfl⟩

/-- A condition is spelled by the words of its derivations. -/
theorem spelled_iff_derivation {expr : Expr} {words : List Word} :
    expr.Spelled words ↔
      ∃ derivation : Derivation .or, derivation.words = words ∧ derivation.tree = expr := by
  constructor
  · rintro ⟨exprs, rfl, spells⟩
    obtain ⟨first, rest, rfl, rfl⟩ := spells.derived
    exact ⟨.or first rest, rfl, rfl⟩
  · rintro ⟨derivation, rfl, rfl⟩
    exact derivation.spelled

/-- What the tree of a symbol cannot be, so that a list of such trees can be told from its join. -/
def Symbol.Shaped : (symbol : Symbol) → symbol.Tree → Prop
  | .and, expr => ∀ children, expr ≠ .or children
  | .primary, expr => (∀ children, expr ≠ .or children) ∧ ∀ children, expr ≠ .and children
  | .operandRest, others => ∀ next ∈ others, next.1.isProduct = false
  | .term, part => ∀ left op right, part = .binary left op right → op.isProduct = true
  | .termRest, others => ∀ next ∈ others, next.1.isProduct = true
  | .factor, part => ∀ left op right, part ≠ .binary left op right
  | _, _ => True

theorem Derivation.shaped {symbol : Symbol} (derivation : Derivation symbol) :
    symbol.Shaped derivation.tree := by
  induction derivation with
  | and first rest ihFirst _ =>
    intro children
    rw [tree]
    cases rest with
    | andEnd => exact ihFirst.1 children
    | andMore next rest => exact nofun
  | not | group | comparison => exact ⟨nofun, nofun⟩
  | operandEnd | termEnd => exact nofun
  | operandMore op isSum next rest _ ihRest => exact List.forall_mem_cons.2 ⟨isSum, ihRest⟩
  | termMore op isProduct next rest _ ihRest => exact List.forall_mem_cons.2 ⟨isProduct, ihRest⟩
  | term first rest ihFirst ihRest =>
    intro left op right same
    rw [tree] at same
    rcases List.eq_nil_or_concat rest.tree with none | ⟨others, last, more⟩
    · rw [none] at same
      exact absurd same (ihFirst left op right)
    · rw [more, List.concat_eq_append, joinLeft_append] at same
      cases same
      exact ihRest last (by simp [more])
  | signed | paren | identifier | number | quoted | bareCall | call => exact nofun
  | or | orEnd | orMore | andEnd | andMore | operand | argumentEnd | argumentMore => trivial

theorem collapse_injective {join : List Expr → Expr} (injective : Function.Injective join)
    {first other : Expr} {rest others : List Expr} (apart : ∀ children, first ≠ join children)
    (apartOther : ∀ children, other ≠ join children)
    (same : collapse join (first :: rest) = collapse join (other :: others)) :
    first = other ∧ rest = others := by
  cases rest with
  | nil =>
    cases others with
    | nil => exact ⟨same, rfl⟩
    | cons next others => exact absurd same (apart _)
  | cons next rest =>
    cases others with
    | nil => exact absurd same.symm (apartOther _)
    | cons another others => exact List.cons.inj (injective same)

/-- A join of operands by operators of one rank tells them apart, if the first is no such join. -/
theorem joinLeft_injective {rank : Bool} {first other : Operand}
    {rest others : List (Arithmetic × Operand)}
    (apart : ∀ left op right, first = .binary left op right → op.isProduct ≠ rank)
    (apartOther : ∀ left op right, other = .binary left op right → op.isProduct ≠ rank)
    (ranked : ∀ next ∈ rest, next.1.isProduct = rank)
    (rankedOther : ∀ next ∈ others, next.1.isProduct = rank)
    (same : joinLeft first rest = joinLeft other others) : first = other ∧ rest = others := by
  -- Both joins are taken apart from their ends, where the last operator stands at the top.
  induction rest using List.reverseRecOn generalizing others with
  | nil =>
    rcases List.eq_nil_or_concat others with rfl | ⟨others, ⟨op, last⟩, rfl⟩
    · exact ⟨same, rfl⟩
    · rw [List.concat_eq_append] at same rankedOther
      rw [joinLeft_append] at same
      exact absurd (rankedOther (op, last) (by simp)) (apart _ op last same)
  | append_singleton rest next ih =>
    rw [joinLeft_append] at same
    rcases List.eq_nil_or_concat others with rfl | ⟨others, ⟨op, last⟩, rfl⟩
    · exact absurd (ranked next (by simp)) (apartOther _ _ _ same.symm)
    · rw [List.concat_eq_append] at same rankedOther ⊢
      rw [joinLeft_append] at same
      obtain ⟨sameLeft, sameOp, sameLast⟩ := Operand.binary.inj same
      obtain ⟨sameFirst, sameRest⟩ := ih (fun next mem => ranked next (by simp [mem]))
        (fun next mem => rankedOther next (by simp [mem])) sameLeft
      refine ⟨sameFirst, ?_⟩
      rw [sameRest, ← sameOp, ← sameLast]

/-- A tree is built by one derivation only. -/
theorem Derivation.tree_injective {symbol : Symbol} (derivation other : Derivation symbol)
    (same : derivation.tree = other.tree) : derivation = other := by
  -- The four joins are told apart by the shapes of their parts; all else is a constructor.
  induction derivation with
  | or first rest ihFirst ihRest =>
    cases other with
    | or otherFirst otherRest =>
      have ⟨sameFirst, sameRest⟩ := collapse_injective (fun _ _ => Expr.or.inj) first.shaped
        otherFirst.shaped same
      rw [ihFirst otherFirst sameFirst, ihRest otherRest sameRest]
  | and first rest ihFirst ihRest =>
    cases other with
    | and otherFirst otherRest =>
      have ⟨sameFirst, sameRest⟩ := collapse_injective (fun _ _ => Expr.and.inj) first.shaped.2
        otherFirst.shaped.2 same
      rw [ihFirst otherFirst sameFirst, ihRest otherRest sameRest]
  | operand first rest ihFirst ihRest =>
    cases other with
    | operand otherFirst otherRest =>
      have apart : ∀ {first : Derivation .term} left op right,
          first.tree = .binary left op right → op.isProduct ≠ false := by
        intro first left op right binary
        rw [first.shaped left op right binary]
        exact Bool.noConfusion
      have ⟨sameFirst, sameRest⟩ :=
        joinLeft_injective apart apart rest.shaped otherRest.shaped same
      rw [ihFirst otherFirst sameFirst, ihRest otherRest sameRest]
  | term first rest ihFirst ihRest =>
    cases other with
    | term otherFirst otherRest =>
      have apart : ∀ {first : Derivation .factor} left op right,
          first.tree = .binary left op right → op.isProduct ≠ true := by
        intro first left op right binary
        exact absurd binary (first.shaped left op right)
      have ⟨sameFirst, sameRest⟩ :=
        joinLeft_injective apart apart rest.shaped otherRest.shaped same
      rw [ihFirst otherFirst sameFirst, ihRest otherRest sameRest]
  | orEnd | andEnd | operandEnd | termEnd | argumentEnd =>
    cases other <;> first | rfl | cases same
  | orMore next rest ihNext ihRest =>
    cases other with
    | orEnd => cases same
    | orMore otherNext otherRest =>
      have ⟨sameNext, sameRest⟩ := List.cons.inj same
      rw [ihNext otherNext sameNext, ihRest otherRest sameRest]
  | andMore next rest ihNext ihRest =>
    cases other with
    | andEnd => cases same
    | andMore otherNext otherRest =>
      have ⟨sameNext, sameRest⟩ := List.cons.inj same
      rw [ihNext otherNext sameNext, ihRest otherRest sameRest]
  | argumentMore next rest ihNext ihRest =>
    cases other with
    | argumentEnd => cases same
    | argumentMore otherNext otherRest =>
      have ⟨sameNext, sameRest⟩ := List.cons.inj same
      rw [ihNext otherNext sameNext, ihRest otherRest sameRest]
  | operandMore op isSum next rest ihNext ihRest =>
    cases other with
    | operandEnd => cases same
    | operandMore otherOp _ otherNext otherRest =>
      have ⟨sameHead, sameRest⟩ := List.cons.inj same
      have ⟨sameOp, sameNext⟩ := Prod.mk.inj sameHead
      subst sameOp
      rw [ihNext otherNext sameNext, ihRest otherRest sameRest]
  | termMore op isProduct next rest ihNext ihRest =>
    cases other with
    | termEnd => cases same
    | termMore otherOp _ otherNext otherRest =>
      have ⟨sameHead, sameRest⟩ := List.cons.inj same
      have ⟨sameOp, sameNext⟩ := Prod.mk.inj sameHead
      subst sameOp
      rw [ihNext otherNext sameNext, ihRest otherRest sameRest]
  | not inner ih =>
    cases other with
    | not otherInner => rw [ih otherInner (Expr.not.inj same)]
    | group | comparison => cases same
  | group inner ih =>
    cases other with
    | group otherInner => rw [ih otherInner (Expr.group.inj same)]
    | not | comparison => cases same
  | comparison left op right ihLeft ihRight =>
    cases other with
    | comparison otherLeft otherOp otherRight =>
      have ⟨sameLeft, sameOp, sameRight⟩ := Expr.comparison.inj same
      rw [ihLeft otherLeft sameLeft, sameOp, ihRight otherRight sameRight]
    | not | group => cases same
  | signed negative inner ih =>
    cases other with
    | signed otherNegative otherInner =>
      have ⟨sameSign, sameInner⟩ := Operand.signed.inj same
      rw [sameSign, ih otherInner sameInner]
    | _ => cases same
  | paren inner ih =>
    cases other with
    | paren otherInner => rw [ih otherInner (Operand.paren.inj same)]
    | _ => cases same
  | call name first rest ihFirst ihRest =>
    cases other with
    | call otherName otherFirst otherRest =>
      have ⟨sameName, sameArguments⟩ := Operand.call.inj same
      have ⟨sameFirst, sameRest⟩ := List.cons.inj sameArguments
      rw [sameName, ihFirst otherFirst sameFirst, ihRest otherRest sameRest]
    | _ => cases same
  | identifier name =>
    cases other with
    | identifier otherName => rw [Operand.identifier.inj same]
    | _ => cases same
  | number text =>
    cases other with
    | number otherText => rw [Operand.number.inj same]
    | _ => cases same
  | quoted raw =>
    cases other with
    | quoted otherRaw => rw [Operand.quoted.inj same]
    | _ => cases same
  | bareCall name =>
    cases other with
    | bareCall otherName => rw [(Operand.call.inj same).1]
    | _ => cases same

/-- Texts without stray characters are read exactly where their words have a derivation; what is
read is its tree, and there is no other derivation. -/
theorem parse_iff_derivation {text : String} (clean : (lex text).errors = []) :
    (∀ expr, parse text = .ok (some expr) ↔ ∃ derivation : Derivation .or,
      derivation.words = (lex text).tokens.map Token.word ∧ derivation.tree = expr) ∧
    ∀ derivation other : Derivation .or,
      derivation.words = (lex text).tokens.map Token.word →
      other.words = (lex text).tokens.map Token.word → derivation = other := by
  have reads : ∀ expr, parse text = .ok (some expr) ↔ ∃ derivation : Derivation .or,
      derivation.words = (lex text).tokens.map Token.word ∧ derivation.tree = expr := by
    intro expr
    rw [← spelled_iff_derivation]
    exact ⟨fun parsed => (parse_sound parsed).2, parse_complete clean⟩
  refine ⟨reads, ?_⟩
  intro derivation other words otherWords
  have parsed := (reads derivation.tree).2 ⟨derivation, words, rfl⟩
  have parsedOther := (reads other.tree).2 ⟨other, otherWords, rfl⟩
  rw [parsed] at parsedOther
  apply Derivation.tree_injective
  exact Option.some.inj (Except.ok.inj parsedOther)

/-- Brackets open operands, calls, groups and negated groups, inside one another. -/
theorem parse_iff_derivation_brackets :
    let text := "((a) + b) * 2 > -f(x, (1)) AND ((c) < 3 OR NOT ((d - 1) - 2 = 0))"
    (lex text).errors = [] ∧ ∃ derivation : Derivation .or,
      derivation.words = (lex text).tokens.map Token.word ∧
      parse text = .ok (some derivation.tree) ∧
      ∀ other : Derivation .or,
        other.words = (lex text).tokens.map Token.word → other = derivation := by
  intro text
  have accepted : (parse text).toOption.join.isSome = true := by decide +kernel
  cases parsed : parse text with
  | error errors =>
    rw [parsed] at accepted
    cases accepted
  | ok read =>
    cases read with
    | none =>
      rw [parsed] at accepted
      cases accepted
    | some expr =>
      obtain ⟨clean, -⟩ := parse_sound parsed
      obtain ⟨reads, unique⟩ := parse_iff_derivation clean
      obtain ⟨derivation, words, rfl⟩ := (reads expr).1 parsed
      exact ⟨clean, derivation, words, rfl, fun other same => unique other derivation same words⟩

end TelemetryQuery.Having
