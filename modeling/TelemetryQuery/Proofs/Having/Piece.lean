import Mathlib.Data.List.Chain
import TelemetryQuery.Proofs.Having.Word
/- Conditions on results as references with other words between them, and what replacing the
references does to them. -/
namespace TelemetryQuery.Having

variable {f : Operand → Operand} {phrase : Phrase}

mutual

def Operand.words : Operand → List Word
  | .binary left op right => left.words ++ .fixed (.arithmetic op) :: right.words
  | .signed negative operand => .fixed (.arithmetic (signOperator negative)) :: operand.words
  | .paren inner => .fixed .lparen :: inner.words ++ [.fixed .rparen]
  | .call name arguments => ⟨.identifier, name⟩ :: .fixed .lparen :: argumentWords arguments
  | .identifier name => [⟨.identifier, name⟩]
  | .number text => [⟨.number, text⟩]
  | .quoted raw => [⟨.quotedText, raw⟩]

/-- The words of arguments, with the bracket that closes them. -/
def argumentWords : List Operand → List Word
  | [] => [.fixed .rparen]
  | [operand] => operand.words ++ [.fixed .rparen]
  | operand :: rest => operand.words ++ .fixed .comma :: argumentWords rest

end

theorem argumentWords_cons (operand : Operand) {rest : List Operand} (more : rest ≠ []) :
    argumentWords (operand :: rest) = operand.words ++ .fixed .comma :: argumentWords rest := by
  rw [argumentWords]
  exact more

/-- A reference of a condition, with all that belongs to it, or a word between references. -/
inductive Piece where
  | between (word : Word)
  | reference (operand : Operand)

namespace Piece

def words : Piece → List Word
  | between word => [word]
  | reference operand => operand.words

def references : Piece → List Reference
  | between _ => []
  | reference operand => operand.references

/-- Whether an operand may end with the piece. -/
def ends : Piece → Bool
  | between word => word.kind = .number || word.kind = .quotedText || word.kind = .rparen
  | reference _ => true

/-- Whether an operand or a condition may start with the piece, and not with a sign. -/
def opens : Piece → Bool
  | between word => word.kind ∈ [.number, .quotedText, .lparen, .not, .bool]
  | reference _ => true

def replace (f : Operand → Operand) : Piece → Piece
  | between word => .between word
  | reference operand => .reference (f operand)

end Piece

def Operand.pieces : Operand → List Piece
  | .binary left op right => left.pieces ++ .between (.fixed (.arithmetic op)) :: right.pieces
  | .signed negative operand =>
    .between (.fixed (.arithmetic (signOperator negative))) :: operand.pieces
  | .paren inner => .between (.fixed .lparen) :: inner.pieces ++ [.between (.fixed .rparen)]
  | .call name arguments => [.reference (.call name arguments)]
  | .identifier name => [.reference (.identifier name)]
  | .number text => [.between ⟨.number, text⟩]
  | .quoted raw => [.between ⟨.quotedText, raw⟩]

mutual

def Expr.pieces : Expr → List Piece
  | .or children => joinedPieces .or children
  | .and children => joinedPieces .and children
  | .not inner =>
    .between (.fixed .not) :: .between (.fixed .lparen) :: inner.pieces ++
      [.between (.fixed .rparen)]
  | .group inner => .between (.fixed .lparen) :: inner.pieces ++ [.between (.fixed .rparen)]
  | .comparison left op right => left.pieces ++ .between (.fixed (.comparison op)) :: right.pieces

/-- The pieces of conditions with a word between neighbours. -/
def joinedPieces (connective : Kind) : List Expr → List Piece
  | [] => []
  | [expr] => expr.pieces
  | expr :: rest => expr.pieces ++ .between (.fixed connective) :: joinedPieces connective rest

end

theorem joinedPieces_cons (connective : Kind) (expr : Expr) {rest : List Expr} (more : rest ≠ []) :
    joinedPieces connective (expr :: rest) =
      expr.pieces ++ .between (.fixed connective) :: joinedPieces connective rest := by
  rw [joinedPieces]
  exact more

theorem pieces_collapse_or (exprs : List Expr) :
    (collapse .or exprs).pieces = joinedPieces .or exprs := by
  fun_cases collapse Expr.or exprs with
  | case1 expr => rw [joinedPieces]
  | case2 => rw [Expr.pieces]

theorem pieces_collapse_and (exprs : List Expr) :
    (collapse .and exprs).pieces = joinedPieces .and exprs := by
  fun_cases collapse Expr.and exprs with
  | case1 expr => rw [joinedPieces]
  | case2 => rw [Expr.pieces]

def wordsOf (pieces : List Piece) : List Word :=
  pieces.flatMap Piece.words

@[simp]
theorem wordsOf_nil : wordsOf [] = [] :=
  rfl

@[simp]
theorem wordsOf_cons (piece : Piece) (pieces : List Piece) :
    wordsOf (piece :: pieces) = piece.words ++ wordsOf pieces :=
  rfl

@[simp]
theorem wordsOf_append (first second : List Piece) :
    wordsOf (first ++ second) = wordsOf first ++ wordsOf second :=
  List.flatMap_append

theorem Operand.wordsOf_pieces (operand : Operand) : wordsOf operand.pieces = operand.words := by
  induction operand using Operand.pieces.induct with
  | case1 left op right ihLeft ihRight =>
    simp [Operand.pieces, Operand.words, Piece.words, ihLeft, ihRight]
  | case2 negative operand ih => simp [Operand.pieces, Operand.words, Piece.words, ih]
  | case3 inner ih => simp [Operand.pieces, Operand.words, Piece.words, ih]
  | case4 | case5 | case6 | case7 => simp [Operand.pieces, Operand.words, Piece.words]

/-- The words that a part of a condition is spelled with. -/
def Phrase.words : Phrase → List Word
  | .factor part | .term part | .operand part => part.words
  | .arguments operands => argumentWords operands
  | .primary expr => wordsOf expr.pieces
  | .conjuncts exprs => wordsOf (joinedPieces .and exprs)
  | .branches exprs => wordsOf (joinedPieces .or exprs)

/-- A part of a condition that is a list of parts has some. -/
def Phrase.HasParts : Phrase → Prop
  | .arguments operands => operands ≠ []
  | .conjuncts exprs | .branches exprs => exprs ≠ []
  | _ => True

theorem Spells.hasParts {words : List Word} (spell : Spells phrase words) : phrase.HasParts := by
  cases spell <;> first | exact trivial | exact List.cons_ne_nil _ _

/-- A part of a condition is spelled with its words only. -/
theorem Spells.words_eq {words : List Word} (spell : Spells phrase words) :
    words = phrase.words := by
  induction spell with
  | number | quoted | identifier | bareCall => simp [Phrase.words, Operand.words, argumentWords]
  | signed _ ih | paren _ ih | call _ ih => simp [Phrase.words, Operand.words, ih]
  | lastArgument _ ih => simp [Phrase.words, argumentWords, ih]
  | argument _ rest ihFirst ihRest =>
    rw [Phrase.words, argumentWords_cons _ rest.hasParts, ihFirst, ihRest]
    rfl
  | ofFactor _ ih | ofTerm _ ih => exact ih
  | product _ _ _ ihFirst ihRest | sum _ _ _ ihFirst ihRest =>
    simp [Phrase.words, Operand.words, ihFirst, ihRest]
  | comparison _ _ ihFirst ihRest =>
    simp [Phrase.words, Expr.pieces, Operand.wordsOf_pieces, Piece.words, ihFirst, ihRest]
  | group _ ih | not _ ih =>
    simp [Phrase.words, Expr.pieces, pieces_collapse_or, Piece.words, ih]
  | lone _ ih => simp [Phrase.words, joinedPieces, ih]
  | both _ rest ihFirst ihRest =>
    simp [Phrase.words, joinedPieces_cons _ _ rest.hasParts, Piece.words, ihFirst, ihRest]
  | only _ ih => simp [Phrase.words, joinedPieces, pieces_collapse_and, ih]
  | either _ rest ihFirst ihRest =>
    simp [Phrase.words, joinedPieces_cons _ _ rest.hasParts, pieces_collapse_and,
      Piece.words, ihFirst, ihRest]

/-- No piece that an operand may start with follows one that an operand may end with. -/
def Linked (pieces : List Piece) : Prop :=
  pieces.IsChain fun a b => a.ends = true → b.opens = false

theorem linked_single (piece : Piece) : Linked [piece] :=
  List.isChain_singleton piece

theorem linked_cons {piece : Piece} {pieces : List Piece} (inner : piece.ends = false)
    (linked : Linked pieces) : Linked (piece :: pieces) := by
  refine List.isChain_cons.2 ⟨fun next _ ends => ?_, linked⟩
  rw [inner] at ends
  cases ends

theorem linked_append {first second : List Piece} (linked : Linked first) (others : Linked second)
    (inner : ∀ piece ∈ second.head?, piece.opens = false) : Linked (first ++ second) :=
  List.isChain_append.2 ⟨linked, others, fun _ _ piece head _ => inner piece head⟩

/-- A word that no operand starts or ends with keeps its neighbours apart. -/
theorem linked_between {first second : List Piece} {piece : Piece} (linked : Linked first)
    (others : Linked second) (ends : piece.ends = false) (opens : piece.opens = false) :
    Linked (first ++ piece :: second) := by
  refine linked_append linked (linked_cons ends others) ?_
  rintro _ ⟨⟩
  exact opens

theorem linked_bracketed {pieces : List Piece} (linked : Linked pieces) :
    Linked (.between (.fixed .lparen) :: pieces ++ [.between (.fixed .rparen)]) := by
  refine linked_append (linked_cons rfl linked) (linked_single _) ?_
  rintro _ ⟨⟩
  rfl

theorem Operand.linked (operand : Operand) : Linked operand.pieces := by
  induction operand using Operand.pieces.induct with
  | case1 left op right ihLeft ihRight =>
    rw [Operand.pieces]
    exact linked_between ihLeft ihRight rfl rfl
  | case2 negative operand ih =>
    rw [Operand.pieces]
    exact linked_cons rfl ih
  | case3 inner ih =>
    rw [Operand.pieces]
    exact linked_bracketed ih
  | case4 | case5 | case6 | case7 =>
    rw [Operand.pieces]
    exact linked_single _

mutual

theorem Expr.linked : (expr : Expr) → Linked expr.pieces
  | .or children => by
    rw [Expr.pieces]
    exact joined_linked rfl rfl children
  | .and children => by
    rw [Expr.pieces]
    exact joined_linked rfl rfl children
  | .not inner => by
    rw [Expr.pieces]
    exact linked_cons rfl (linked_bracketed inner.linked)
  | .group inner => by
    rw [Expr.pieces]
    exact linked_bracketed inner.linked
  | .comparison left op right => by
    rw [Expr.pieces]
    exact linked_between left.linked right.linked rfl rfl

theorem joined_linked {connective : Kind} (ends : (Piece.between (.fixed connective)).ends = false)
    (opens : (Piece.between (.fixed connective)).opens = false) :
    (exprs : List Expr) → Linked (joinedPieces connective exprs)
  | [] => by
    rw [joinedPieces]
    exact .nil
  | [expr] => by
    rw [joinedPieces]
    exact expr.linked
  | expr :: second :: rest => by
    rw [joinedPieces_cons _ _ (List.cons_ne_nil second rest)]
    exact linked_between expr.linked (joined_linked ends opens (second :: rest)) ends opens

end

/-- Between references stand no names, and references are names or calls. -/
def Piece.isProper : Piece → Bool
  | between word => word.kind ≠ .identifier
  | reference (.identifier _) => true
  | reference (.call ..) => true
  | reference _ => false

theorem Operand.proper_pieces (operand : Operand) :
    ∀ piece ∈ operand.pieces, piece.isProper = true := by
  induction operand using Operand.pieces.induct with
  | case1 left op right ihLeft ihRight =>
    rw [Operand.pieces, List.forall_mem_append, List.forall_mem_cons]
    exact ⟨ihLeft, rfl, ihRight⟩
  | case2 negative operand ih =>
    rw [Operand.pieces, List.forall_mem_cons]
    exact ⟨rfl, ih⟩
  | case3 inner ih =>
    rw [Operand.pieces, List.forall_mem_append, List.forall_mem_cons, List.forall_mem_singleton]
    exact ⟨⟨rfl, ih⟩, rfl⟩
  | case4 | case5 | case6 | case7 =>
    rw [Operand.pieces, List.forall_mem_singleton]
    rfl

mutual

theorem Expr.proper_pieces : (expr : Expr) → ∀ piece ∈ expr.pieces, piece.isProper = true
  | .or children => by
    rw [Expr.pieces]
    exact joined_proper rfl children
  | .and children => by
    rw [Expr.pieces]
    exact joined_proper rfl children
  | .not inner => by
    rw [Expr.pieces, List.forall_mem_append, List.forall_mem_cons, List.forall_mem_cons,
      List.forall_mem_singleton]
    exact ⟨⟨rfl, rfl, inner.proper_pieces⟩, rfl⟩
  | .group inner => by
    rw [Expr.pieces, List.forall_mem_append, List.forall_mem_cons, List.forall_mem_singleton]
    exact ⟨⟨rfl, inner.proper_pieces⟩, rfl⟩
  | .comparison left op right => by
    rw [Expr.pieces, List.forall_mem_append, List.forall_mem_cons]
    exact ⟨left.proper_pieces, rfl, right.proper_pieces⟩

theorem joined_proper {connective : Kind}
    (proper : (Piece.between (.fixed connective)).isProper = true) : (exprs : List Expr) →
    ∀ piece ∈ joinedPieces connective exprs, piece.isProper = true
  | [] => by
    rw [joinedPieces]
    exact List.forall_mem_nil _
  | [expr] => by
    rw [joinedPieces]
    exact expr.proper_pieces
  | expr :: second :: rest => by
    rw [joinedPieces_cons _ _ (List.cons_ne_nil second rest), List.forall_mem_append,
      List.forall_mem_cons]
    exact ⟨expr.proper_pieces, proper, joined_proper proper (second :: rest)⟩

end

theorem Operand.references_eq (operand : Operand) :
    operand.references = operand.pieces.flatMap Piece.references := by
  induction operand using Operand.pieces.induct with
  | case1 left op right ihLeft ihRight =>
    simp [Operand.pieces, Operand.references, Piece.references, ihLeft, ihRight]
  | case2 negative operand ih => simp [Operand.pieces, Operand.references, Piece.references, ih]
  | case3 inner ih => simp [Operand.pieces, Operand.references, Piece.references, ih]
  | case4 | case5 | case6 | case7 => simp [Operand.pieces, Operand.references, Piece.references]

mutual

/-- The references of a condition are those of its pieces. -/
theorem Expr.references_eq :
    (expr : Expr) → expr.references = expr.pieces.flatMap Piece.references
  | .or children => by rw [Expr.references, Expr.pieces, joined_references .or children]
  | .and children => by rw [Expr.references, Expr.pieces, joined_references .and children]
  | .not inner => by simp [Expr.references, Expr.pieces, Piece.references, inner.references_eq]
  | .group inner => by simp [Expr.references, Expr.pieces, Piece.references, inner.references_eq]
  | .comparison left op right => by
    simp [Expr.references, Expr.pieces, Piece.references, Operand.references_eq]

theorem joined_references (connective : Kind) : (exprs : List Expr) →
    exprsReferences exprs = (joinedPieces connective exprs).flatMap Piece.references
  | [] => by simp [exprsReferences, joinedPieces]
  | [expr] => by simp [exprsReferences, joinedPieces, expr.references_eq]
  | expr :: second :: rest => by
    rw [exprsReferences, joinedPieces_cons _ _ (List.cons_ne_nil second rest), expr.references_eq,
      joined_references connective (second :: rest)]
    simp [Piece.references]

end

def Operand.replace (f : Operand → Operand) : Operand → Operand
  | .binary left op right => .binary (left.replace f) op (right.replace f)
  | .signed negative operand => .signed negative (operand.replace f)
  | .paren inner => .paren (inner.replace f)
  | .call name arguments => f (.call name arguments)
  | .identifier name => f (.identifier name)
  | .number text => .number text
  | .quoted raw => .quoted raw

mutual

def Expr.replace (f : Operand → Operand) : Expr → Expr
  | .or children => .or (replaceAll f children)
  | .and children => .and (replaceAll f children)
  | .not inner => .not (inner.replace f)
  | .group inner => .group (inner.replace f)
  | .comparison left op right => .comparison (left.replace f) op (right.replace f)

def replaceAll (f : Operand → Operand) : List Expr → List Expr
  | [] => []
  | expr :: rest => expr.replace f :: replaceAll f rest

end

theorem replace_collapse_or (f : Operand → Operand) (exprs : List Expr) :
    (collapse .or exprs).replace f = collapse .or (replaceAll f exprs) := by
  cases exprs with
  | nil => simp [collapse, Expr.replace, replaceAll]
  | cons expr rest => cases rest <;> simp [collapse, Expr.replace, replaceAll]

theorem replace_collapse_and (f : Operand → Operand) (exprs : List Expr) :
    (collapse .and exprs).replace f = collapse .and (replaceAll f exprs) := by
  cases exprs with
  | nil => simp [collapse, Expr.replace, replaceAll]
  | cons expr rest => cases rest <;> simp [collapse, Expr.replace, replaceAll]

/-- A replacement that puts a name in place of a reference, or leaves it. -/
def Names (f : Operand → Operand) : Prop :=
  ∀ operand, (∃ name, f operand = .identifier name) ∨ f operand = operand

theorem Operand.pieces_replace (names : Names f) (operand : Operand) :
    (operand.replace f).pieces = operand.pieces.map (Piece.replace f) := by
  induction operand using Operand.pieces.induct with
  | case1 left op right ihLeft ihRight =>
    simp [Operand.pieces, Operand.replace, Piece.replace, ihLeft, ihRight]
  | case2 negative operand ih => simp [Operand.pieces, Operand.replace, Piece.replace, ih]
  | case3 inner ih => simp [Operand.pieces, Operand.replace, Piece.replace, ih]
  | case4 name arguments =>
    rcases names (.call name arguments) with ⟨other, same⟩ | same <;>
      simp [Operand.pieces, Operand.replace, Piece.replace, same]
  | case5 name =>
    rcases names (.identifier name) with ⟨other, same⟩ | same <;>
      simp [Operand.pieces, Operand.replace, Piece.replace, same]
  | case6 | case7 => simp [Operand.pieces, Operand.replace, Piece.replace]

mutual

/-- The pieces of a condition with its references replaced are its pieces, replaced. -/
theorem Expr.pieces_replace (names : Names f) :
    (expr : Expr) → (expr.replace f).pieces = expr.pieces.map (Piece.replace f)
  | .or children => by rw [Expr.replace, Expr.pieces, Expr.pieces, joined_replace names]
  | .and children => by rw [Expr.replace, Expr.pieces, Expr.pieces, joined_replace names]
  | .not inner => by simp [Expr.replace, Expr.pieces, Piece.replace, inner.pieces_replace names]
  | .group inner => by simp [Expr.replace, Expr.pieces, Piece.replace, inner.pieces_replace names]
  | .comparison left op right => by
    simp [Expr.replace, Expr.pieces, Piece.replace, Operand.pieces_replace names]

theorem joined_replace (names : Names f) (connective : Kind) :
    (exprs : List Expr) → joinedPieces connective (replaceAll f exprs) =
      (joinedPieces connective exprs).map (Piece.replace f)
  | [] => by simp [replaceAll, joinedPieces]
  | [expr] => by simp [replaceAll, joinedPieces, expr.pieces_replace names]
  | expr :: second :: rest => by
    have tail := joined_replace names connective (second :: rest)
    rw [replaceAll, joinedPieces_cons _ _ (by simp [replaceAll]),
      joinedPieces_cons _ _ (List.cons_ne_nil second rest), tail, expr.pieces_replace names]
    simp [Piece.replace]

end

/-- A part of a condition with its references replaced; the arguments of a call are left. -/
def Phrase.replace (f : Operand → Operand) : Phrase → Phrase
  | .factor part => .factor (part.replace f)
  | .term part => .term (part.replace f)
  | .operand part => .operand (part.replace f)
  | .arguments parts => .arguments parts
  | .primary part => .primary (part.replace f)
  | .conjuncts parts => .conjuncts (replaceAll f parts)
  | .branches parts => .branches (replaceAll f parts)

/-- Putting names in place of references keeps to the grammar. -/
theorem Spells.replace (names : Names f) {words : List Word} (spell : Spells phrase words) :
    ∃ others, Spells (phrase.replace f) others := by
  induction spell with
  | number => exact ⟨_, .number⟩
  | quoted => exact ⟨_, .quoted⟩
  | @identifier name =>
    rcases names (.identifier name) with ⟨other, same⟩ | same <;>
      exact ⟨_, by rw [Phrase.replace, Operand.replace, same]; exact .identifier⟩
  | signed _ ih => exact ⟨_, .signed ih.choose_spec⟩
  | paren _ ih => exact ⟨_, .paren ih.choose_spec⟩
  | @bareCall name =>
    rcases names (.call name []) with ⟨other, same⟩ | same
    · exact ⟨_, by rw [Phrase.replace, Operand.replace, same]; exact .identifier⟩
    · exact ⟨_, by rw [Phrase.replace, Operand.replace, same]; exact .bareCall⟩
  | @call name operands words inner _ =>
    rcases names (.call name operands) with ⟨other, same⟩ | same
    · exact ⟨_, by rw [Phrase.replace, Operand.replace, same]; exact .identifier⟩
    · exact ⟨_, by rw [Phrase.replace, Operand.replace, same]; exact .call inner⟩
  | lastArgument inner _ => exact ⟨_, .lastArgument inner⟩
  | argument first rest _ _ => exact ⟨_, .argument first rest⟩
  | ofFactor _ ih => exact ⟨_, .ofFactor ih.choose_spec⟩
  | product kind _ _ ihFirst ihRest =>
    exact ⟨_, .product kind ihFirst.choose_spec ihRest.choose_spec⟩
  | ofTerm _ ih => exact ⟨_, .ofTerm ih.choose_spec⟩
  | sum kind _ _ ihFirst ihRest => exact ⟨_, .sum kind ihFirst.choose_spec ihRest.choose_spec⟩
  | comparison _ _ ihFirst ihRest =>
    exact ⟨_, .comparison ihFirst.choose_spec ihRest.choose_spec⟩
  | group _ ih =>
    rw [Phrase.replace, Expr.replace, replace_collapse_or]
    exact ⟨_, .group ih.choose_spec⟩
  | not _ ih =>
    rw [Phrase.replace, Expr.replace, replace_collapse_or]
    exact ⟨_, .not ih.choose_spec⟩
  | lone _ ih => exact ⟨_, .lone ih.choose_spec⟩
  | both _ _ ihFirst ihRest => exact ⟨_, .both ihFirst.choose_spec ihRest.choose_spec⟩
  | only _ ih =>
    exact ⟨_, by
      rw [Phrase.replace, replaceAll, replaceAll, replace_collapse_and]
      exact .only ih.choose_spec⟩
  | either _ _ ihFirst ihRest =>
    exact ⟨_, by
      rw [Phrase.replace, replaceAll, replace_collapse_and]
      exact .either ihFirst.choose_spec ihRest.choose_spec⟩

theorem Expr.Spelled.words_eq {expr : Expr} {words : List Word} (spelled : expr.Spelled words) :
    words = wordsOf expr.pieces := by
  obtain ⟨exprs, rfl, spell⟩ := spelled
  rw [pieces_collapse_or]
  exact spell.words_eq

/-- A condition stays one when names take the place of its references. -/
theorem Expr.Spelled.replace (names : Names f) {expr : Expr} {words : List Word}
    (spelled : expr.Spelled words) :
    (expr.replace f).Spelled (wordsOf (expr.pieces.map (Piece.replace f))) := by
  obtain ⟨exprs, rfl, spell⟩ := spelled
  obtain ⟨others, spells⟩ := spell.replace names
  have replaced : (collapse .or exprs).replace f |>.Spelled others :=
    ⟨replaceAll f exprs, replace_collapse_or f exprs, spells⟩
  rw [← Expr.pieces_replace names, ← replaced.words_eq]
  exact replaced

end TelemetryQuery.Having
