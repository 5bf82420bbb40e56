import Mathlib.Algebra.Field.Basic
import Mathlib.Algebra.Field.Rat
import TelemetryQuery.Proofs.Number.Display
import TelemetryQuery.Proofs.Sql.Builder
import TelemetryQuery.Proofs.Sql.Formula
/- Arithmetic in SQL, read with the usual precedence: brackets first, then signs, products and
quotients from left to right, and sums and differences from left to right. -/
namespace TelemetryQuery.Sql.Arithmetic

/-- Arithmetic is written in words: blanks, marks, numbers, and aggregates taken as they are. -/
inductive Word where
  | blank
  | opening
  | closing
  | plus
  | minus
  | times
  | divide
  | number (digits : String)
  | aggregate (fragment : Fragment)
deriving Repr

namespace Word

def fragment : Word → Fragment
  | blank => .ofText " "
  | opening => .ofText "("
  | closing => .ofText ")"
  | plus => .ofText "+"
  | minus => .ofText "-"
  | times => .ofText "*"
  | divide => .ofText "/"
  | number digits => .ofText digits
  | aggregate fragment => fragment

/-- The SQL that some words make, one after the other. -/
def concat (words : List Word) : Fragment :=
  words.flatMap fragment

def isBlank : Word → Bool
  | blank => true
  | _ => false

/-- Words that make the SQL of a fragment, with the same values bound in it. -/
structure Spells (words : List Word) (fragment : Fragment) : Prop where
  sql : (concat words).sql = fragment.sql
  arguments : (concat words).arguments = fragment.arguments

namespace Spells

theorem refl (words : List Word) : Spells words (concat words) :=
  ⟨rfl, rfl⟩

theorem aggregate (fragment : Fragment) : Spells [.aggregate fragment] fragment := by
  constructor <;> simp [concat, Word.fragment]

theorem append {first second : List Word} {a b : Fragment} (spellsFirst : Spells first a)
    (spellsSecond : Spells second b) : Spells (first ++ second) (a ++ b) := by
  constructor
  · rw [concat, List.flatMap_append, Fragment.sql_append, Fragment.sql_append]
    exact congrArg₂ _ spellsFirst.sql spellsSecond.sql
  · rw [concat, List.flatMap_append, Fragment.arguments_append, Fragment.arguments_append]
    exact congrArg₂ _ spellsFirst.arguments spellsSecond.arguments

end Spells

end Word

/-- What numbers and aggregates stand for; the digits of a natural number stand for it. -/
structure Valuation where
  number : String → ℚ
  natural : ∀ n : ℕ, number (toString n) = n
  aggregate : Fragment → ℚ

/-- Numbers read as digits, and aggregates of some values. -/
def Valuation.decimal (aggregate : Fragment → ℚ) : Valuation where
  number digits := Number.digitsValue 0 digits.toList
  natural n := congrArg Nat.cast
    ((congrArg _ Nat.toList_repr).trans (Number.digitsValue_toDigits n))
  aggregate := aggregate

section Reading

variable (v : Valuation)

mutual

/-- The value of a factor at the front of some words, and what follows it. -/
def readFactor : List Word → Option (ℚ × List Word)
  | .number digits :: rest => some (v.number digits, rest)
  | .aggregate fragment :: rest => some (v.aggregate fragment, rest)
  | .minus :: rest => (readFactor rest).map fun (x, rest) => (-x, rest)
  | .opening :: rest =>
    match readSum rest with
    | some (x, .closing :: rest) => some (x, rest)
    | _ => none
  | _ => none
termination_by words => (words.length, 0)

/-- The product of what was read with the factors that follow. -/
def moreFactors (product : ℚ) (words : List Word) : Option (ℚ × List Word) :=
  match words with
  | .times :: after => do
    let (x, rest) ← readFactor after
    if rest.length < after.length then moreFactors (product * x) rest else none
  | .divide :: after => do
    let (x, rest) ← readFactor after
    if rest.length < after.length then moreFactors (product / x) rest else none
  | words => some (product, words)
termination_by (words.length, 1)

/-- Reads factors with signs for products and quotients between them. -/
def readTerm (words : List Word) : Option (ℚ × List Word) := do
  let (x, rest) ← readFactor words
  if rest.length < words.length then moreFactors x rest else none
termination_by (words.length, 2)

/-- The sum of what was read with the terms that follow. -/
def moreTerms (total : ℚ) (words : List Word) : Option (ℚ × List Word) :=
  match words with
  | .plus :: after => do
    let (x, rest) ← readTerm after
    if rest.length < after.length then moreTerms (total + x) rest else none
  | .minus :: after => do
    let (x, rest) ← readTerm after
    if rest.length < after.length then moreTerms (total - x) rest else none
  | words => some (total, words)
termination_by (words.length, 3)

/-- Reads terms with signs for sums and differences between them. -/
def readSum (words : List Word) : Option (ℚ × List Word) := do
  let (x, rest) ← readTerm words
  if rest.length < words.length then moreTerms x rest else none
termination_by (words.length, 4)

end

/-- The value of some words from the first to the last, blanks apart. -/
def calculate (words : List Word) : Option ℚ :=
  match readSum v (words.filter (!·.isBlank)) with
  | some (x, []) => some x
  | _ => none

end Reading

inductive Op where
  | plus
  | minus
  | times
  | divide
deriving DecidableEq, Repr

namespace Op

def word : Op → Word
  | plus => .plus
  | minus => .minus
  | times => .times
  | divide => .divide

def apply : Op → ℚ → ℚ → ℚ
  | plus => (· + ·)
  | minus => (· - ·)
  | times => (· * ·)
  | divide => (· / ·)

/-- Whether an operator joins terms, and not factors. -/
def joinsTerms : Op → Bool
  | plus => true
  | minus => true
  | times => false
  | divide => false

/-- The dimension of an operation, if its operands may be put together. -/
def degree : Op → ℤ → ℤ → Option ℤ
  | plus, d, e => if d = e then some d else none
  | minus, d, e => if d = e then some d else none
  | times, d, e => some (d + e)
  | divide, d, e => some (d - e)

theorem apply_over {op : Op} {d e f : ℤ} (degree : op.degree d e = some f) {n : ℚ} (nonzero : n ≠ 0)
    (x y : ℚ) : op.apply (x / n ^ d) (y / n ^ e) = op.apply x y / n ^ f := by
  cases op with
  | plus =>
    obtain ⟨rfl, ⟨⟩⟩ := Option.ite_none_right_eq_some.1 degree
    exact (add_div _ _ _).symm
  | minus =>
    obtain ⟨rfl, ⟨⟩⟩ := Option.ite_none_right_eq_some.1 degree
    exact (sub_div _ _ _).symm
  | times =>
    cases degree
    rw [zpow_add₀ nonzero]
    exact div_mul_div_comm _ _ _ _
  | divide =>
    cases degree
    rw [zpow_sub₀ nonzero]
    exact div_div_div_comm _ _ _ _

end Op

/-- An arithmetic expression over aggregates, some of which are rates. -/
inductive Tree where
  | number (digits : String)
  | aggregate (fragment : Fragment) (rate : Bool)
  | negate (inner : Tree)
  | operation (left : Tree) (op : Op) (right : Tree)
  | nested (inner : Tree)
deriving Repr

variable {rest : List Word} {op : Op} {tree left right : Tree}

namespace Tree

/-- The value of an expression in which rates are divided by an interval. -/
def eval (v : Valuation) (interval : ℚ) : Tree → ℚ
  | number digits => v.number digits
  | aggregate fragment rate =>
    if rate then v.aggregate fragment / interval else v.aggregate fragment
  | negate inner => -inner.eval v interval
  | operation left op right => op.apply (left.eval v interval) (right.eval v interval)
  | nested inner => inner.eval v interval

def words : Tree → List Word
  | number digits => [.number digits]
  | aggregate fragment _ => [.aggregate fragment]
  | negate inner => .minus :: inner.words
  | operation left op right => left.words ++ [.blank, op.word, .blank] ++ right.words
  | nested inner => .opening :: inner.words ++ [.closing]

/-- The words of an expression without the blanks. -/
def marks : Tree → List Word
  | number digits => [.number digits]
  | aggregate fragment _ => [.aggregate fragment]
  | negate inner => .minus :: inner.marks
  | operation left op right => left.marks ++ op.word :: right.marks
  | nested inner => .opening :: inner.marks ++ [.closing]

theorem filter_words (tree : Tree) : tree.words.filter (!·.isBlank) = tree.marks := by
  induction tree with
  | number digits => rfl
  | aggregate fragment rate => rfl
  | negate inner ih => rw [words, marks, List.filter_cons_of_pos rfl, ih]
  | operation left op right ihLeft ihRight =>
    rw [words, marks, List.filter_append, List.filter_append, ihLeft, ihRight]
    cases op <;> simp [Word.isBlank, Op.word]
  | nested inner ih =>
    rw [words, marks, List.filter_append, List.filter_cons_of_pos rfl, ih]
    rfl

theorem marks_ne_nil (tree : Tree) : tree.marks ≠ [] := by
  cases tree <;> simp [marks]

/-- What may be a factor: no operation. -/
def isFactor : Tree → Bool
  | operation _ _ _ => false
  | _ => true

/-- What may be a term: no sum or difference. -/
def isTerm : Tree → Bool
  | operation _ op _ => !op.joinsTerms
  | _ => true

/-- An expression in which brackets stand wherever the usual precedence needs them. -/
def Ordered : Tree → Prop
  | operation left op right =>
    (op.joinsTerms = false → left.isTerm = true ∧ right.isFactor = true) ∧
      right.isTerm = true ∧ left.Ordered ∧ right.Ordered
  | negate inner => inner.isFactor = true ∧ inner.Ordered
  | nested inner => inner.Ordered
  | _ => True

variable (v : Valuation)

/-- Words that no product or quotient goes on with. -/
def EndsTerm (rest : List Word) : Prop :=
  ∀ word ∈ rest.head?, word ≠ .times ∧ word ≠ .divide

theorem endsTerm_nil : EndsTerm [] :=
  fun _ mem => nomatch mem

theorem moreFactors_ends (ends : EndsTerm rest) (x : ℚ) :
    moreFactors v x rest = some (x, rest) := by
  rw [moreFactors]
  · rintro after rfl
    exact (ends _ rfl).1 rfl
  · rintro after rfl
    exact (ends _ rfl).2 rfl

theorem length_rest_lt (tree : Tree) (rest : List Word) :
    rest.length < (tree.marks ++ rest).length := by
  have := List.length_pos_iff.2 tree.marks_ne_nil
  rw [List.length_append]
  omega

/-- How an expression is read, whatever follows it: as a factor, a term and a sum, as far as its
operators allow. -/
structure Reads (tree : Tree) : Prop where
  factor : tree.isFactor = true → ∀ rest,
    readFactor v (tree.marks ++ rest) = some (tree.eval v 1, rest)
  term : tree.isTerm = true → ∀ rest,
    readTerm v (tree.marks ++ rest) = moreFactors v (tree.eval v 1) rest
  sum : ∀ rest, EndsTerm rest → readSum v (tree.marks ++ rest) = moreTerms v (tree.eval v 1) rest

theorem readSum_of_term
    (term : ∀ rest, readTerm v (tree.marks ++ rest) = moreFactors v (tree.eval v 1) rest)
    (ends : EndsTerm rest) : readSum v (tree.marks ++ rest) = moreTerms v (tree.eval v 1) rest := by
  rw [readSum, term, moreFactors_ends v ends]
  exact if_pos (length_rest_lt tree rest)

theorem reads_of_factor
    (factor : ∀ rest, readFactor v (tree.marks ++ rest) = some (tree.eval v 1, rest)) :
    tree.Reads v := by
  have term (rest : List Word) :
      readTerm v (tree.marks ++ rest) = moreFactors v (tree.eval v 1) rest := by
    rw [readTerm, factor]
    exact if_pos (length_rest_lt tree rest)
  exact ⟨fun _ => factor, fun _ => term, fun _ => readSum_of_term v term⟩

variable {v}

/-- A factor more in a term. -/
theorem Reads.times (joins : op.joinsTerms = false) (term : left.Reads v)
    (isTerm : left.isTerm = true) (factor : right.Reads v) (isFactor : right.isFactor = true) :
    (operation left op right).Reads v := by
  have read (rest : List Word) : readTerm v ((operation left op right).marks ++ rest) =
      moreFactors v ((operation left op right).eval v 1) rest := by
    rw [marks, List.append_assoc, List.cons_append, term.term isTerm]
    cases op with
    | plus => cases joins
    | minus => cases joins
    | times =>
      rw [Op.word, moreFactors, factor.factor isFactor]
      exact if_pos (length_rest_lt right rest)
    | divide =>
      rw [Op.word, moreFactors, factor.factor isFactor]
      exact if_pos (length_rest_lt right rest)
  exact ⟨nofun, fun _ => read, fun _ => readSum_of_term v read⟩

/-- A term more in a sum, however far the term goes. -/
theorem Reads.readSum (joins : op.joinsTerms = true) (sum : left.Reads v) {after : List Word}
    {x : ℚ} (read : readTerm v (right.marks ++ rest) = some (x, after))
    (shorter : after.length < (right.marks ++ rest).length) :
    readSum v ((operation left op right).marks ++ rest) =
      moreTerms v (op.apply (left.eval v 1) x) after := by
  have next : EndsTerm (op.word :: (right.marks ++ rest)) := by
    rintro word ⟨⟩
    cases op <;> simp [Op.word] at joins ⊢ <;> cases joins
  rw [marks, List.append_assoc, List.cons_append, sum.sum _ next]
  cases op with
  | plus =>
    rw [Op.word, moreTerms, read]
    exact if_pos shorter
  | minus =>
    rw [Op.word, moreTerms, read]
    exact if_pos shorter
  | times => cases joins
  | divide => cases joins

theorem Reads.plus (joins : op.joinsTerms = true) (sum : left.Reads v) (term : right.Reads v)
    (isTerm : right.isTerm = true) : (operation left op right).Reads v := by
  refine ⟨nofun, ?_, ?_⟩
  · intro single
    rw [Tree.isTerm, joins] at single
    cases single
  · intro rest ends
    have read : readTerm v (right.marks ++ rest) = some (right.eval v 1, rest) := by
      rw [term.term isTerm, moreFactors_ends v ends]
    exact sum.readSum joins read (length_rest_lt right rest)

theorem Reads.nested {inner : Tree} (reads : inner.Reads v) : (nested inner).Reads v := by
  refine reads_of_factor v fun rest => ?_
  have ends : EndsTerm (.closing :: rest) := by
    rintro word ⟨⟩
    simp
  rw [marks, List.append_assoc, List.cons_append, List.singleton_append, readFactor,
    reads.sum _ ends, moreTerms]
  · rfl
  · simp
  · simp

theorem Reads.negate {inner : Tree} (reads : inner.Reads v) (isFactor : inner.isFactor = true) :
    (negate inner).Reads v := by
  refine reads_of_factor v fun rest => ?_
  rw [marks, List.cons_append, readFactor, reads.factor isFactor]
  rfl

/-- An expression with the brackets that precedence needs is read as it is. -/
theorem Ordered.reads (ordered : tree.Ordered) : tree.Reads v := by
  induction tree with
  | number digits =>
    refine reads_of_factor v fun rest => ?_
    rw [marks, List.singleton_append, readFactor, eval]
  | aggregate fragment rate =>
    refine reads_of_factor v fun rest => ?_
    rw [marks, List.singleton_append, readFactor, eval, div_one, ite_self]
  | negate inner ih => exact (ih ordered.2).negate ordered.1
  | nested inner ih => exact (ih ordered).nested
  | operation left op right ihLeft ihRight =>
    obtain ⟨factors, isTerm, orderedLeft, orderedRight⟩ := ordered
    cases joins : op.joinsTerms with
    | false =>
      obtain ⟨leftTerm, rightFactor⟩ := factors joins
      exact (ihLeft orderedLeft).times joins leftTerm (ihRight orderedRight) rightFactor
    | true => exact (ihLeft orderedLeft).plus joins (ihRight orderedRight) isTerm

theorem moreTerms_nil (x : ℚ) : moreTerms v x [] = some (x, []) := by
  rw [moreTerms] <;> simp

theorem calculate_words (ordered : tree.Ordered) :
    calculate v tree.words = some (tree.eval v 1) := by
  have read := (ordered.reads : tree.Reads v).sum [] endsTerm_nil
  rw [List.append_nil, moreTerms_nil] at read
  rw [calculate, filter_words, read]

/-- A division by a natural number, after an expression. -/
def division (n : ℕ) : List Word :=
  [.divide, .number (toString n)]

theorem division_spells (n : ℕ) : Word.Spells (division n) (.ofText ("/" ++ toString n)) := by
  refine ⟨?_, rfl⟩
  apply String.toList_injective
  simp [division, Word.concat, Word.fragment, Fragment.sql, Fragment.ofText, Piece.sql]

theorem moreFactors_division (x : ℚ) (n : ℕ) : moreFactors v x (division n) = some (x / n, []) := by
  have last : moreFactors v (x / n) [] = some (x / n, []) := moreFactors_ends v endsTerm_nil _
  rw [division, moreFactors, readFactor, v.natural]
  exact last

/-- The value of an expression with the last term of its sum divided by a number, and rates taken
as they are. -/
def lastOver (v : Valuation) (n : ℚ) : Tree → ℚ
  | operation left op right =>
    if op.joinsTerms then op.apply (left.eval v 1) (right.eval v 1 / n)
    else (operation left op right).eval v 1 / n
  | tree => tree.eval v 1 / n

theorem lastOver_of_term (isTerm : tree.isTerm = true) (n : ℚ) :
    tree.lastOver v n = tree.eval v 1 / n := by
  cases tree with
  | operation left op right =>
    rw [Tree.isTerm, Bool.not_eq_true'] at isTerm
    rw [lastOver, isTerm, if_neg Bool.false_ne_true]
  | _ => rfl

theorem Reads.readTerm_division (reads : tree.Reads v) (isTerm : tree.isTerm = true) (n : ℕ) :
    readTerm v (tree.marks ++ division n) = some (tree.eval v 1 / n, []) := by
  rw [reads.term isTerm, moreFactors_division]

/-- A division after an expression takes its last term only. -/
theorem calculate_division (ordered : tree.Ordered) (n : ℕ) :
    calculate v (tree.words ++ division n) = some (tree.lastOver v n) := by
  have shown : (tree.words ++ division n).filter (!·.isBlank) = tree.marks ++ division n := by
    rw [List.filter_append, filter_words]
    rfl
  have shorter (tree : Tree) : ([] : List Word).length < (tree.marks ++ division n).length := by
    simp [division]
  have read : readSum v (tree.marks ++ division n) = some (tree.lastOver v n, []) := by
    cases isTerm : tree.isTerm with
    | true =>
      rw [readSum, (ordered.reads : tree.Reads v).readTerm_division isTerm, lastOver_of_term isTerm]
      exact (if_pos (shorter tree)).trans (moreTerms_nil _)
    | false =>
      cases tree with
      | operation left op right =>
        obtain ⟨-, rightTerm, orderedLeft, orderedRight⟩ := ordered
        have joins : op.joinsTerms = true := by simpa [Tree.isTerm] using isTerm
        have last := (orderedRight.reads : right.Reads v).readTerm_division rightTerm n
        rw [orderedLeft.reads.readSum joins last (shorter right), moreTerms_nil, lastOver,
          if_pos joins]
      | _ => cases isTerm
  rw [calculate, shown, read]

/-- Whether an expression holds an aggregate. -/
def hasCall : Tree → Bool
  | number _ => false
  | aggregate _ _ => true
  | negate inner => inner.hasCall
  | operation left _ right => left.hasCall || right.hasCall
  | nested inner => inner.hasCall

/-- Whether an expression holds a rate. -/
def hasRate : Tree → Bool
  | number _ => false
  | aggregate _ rate => rate
  | negate inner => inner.hasRate
  | operation left _ right => left.hasRate || right.hasRate
  | nested inner => inner.hasRate

/-- The dimension of an expression, as a power of a rate's: rates have the first, numbers and other
aggregates none, and what is added or subtracted must have the same. -/
def degree : Tree → Option ℤ
  | number _ => some 0
  | aggregate _ rate => some (if rate then 1 else 0)
  | negate inner => inner.degree
  | operation left op right => do op.degree (← left.degree) (← right.degree)
  | nested inner => inner.degree

/-- An expression whose last term is a rate, the others having no dimension. -/
def RatesLast : Tree → Prop
  | operation left op right =>
    if op.joinsTerms then left.degree = some 0 ∧ right.degree = some 1
    else (operation left op right).degree = some 1
  | tree => tree.degree = some 1

/-- The words of an expression, with a division after it if it has a rate. -/
def divided (n : ℕ) (tree : Tree) : List Word :=
  tree.words ++ if tree.hasRate then division n else []

theorem degree_of_no_rate (none : tree.hasRate = false) : tree.degree = some 0 := by
  induction tree with
  | number digits => rfl
  | aggregate fragment rate =>
    rw [hasRate] at none
    rw [degree, none]
    rfl
  | negate inner ih => exact ih none
  | operation left op right ihLeft ihRight =>
    rw [hasRate, Bool.or_eq_false_iff] at none
    rw [degree, ihLeft none.1, ihRight none.2]
    cases op <;> rfl
  | nested inner ih => exact ih none

/-- An interval divides an expression as often as its dimension says. -/
theorem eval_of_degree {d : ℤ} (degree : tree.degree = some d) {n : ℚ} (nonzero : n ≠ 0) :
    tree.eval v n = tree.eval v 1 / n ^ d := by
  induction tree generalizing d with
  | number digits =>
    cases degree
    rw [eval, eval, zpow_zero, div_one]
  | aggregate fragment rate =>
    cases degree
    cases rate <;> simp [eval]
  | negate inner ih => rw [eval, eval, ih degree, neg_div]
  | nested inner ih => exact ih degree
  | operation left op right ihLeft ihRight =>
    obtain ⟨first, degreeLeft, rest⟩ := Option.bind_eq_some_iff.1 degree
    obtain ⟨second, degreeRight, both⟩ := Option.bind_eq_some_iff.1 rest
    rw [eval, eval, ihLeft degreeLeft, ihRight degreeRight, Op.apply_over both nonzero]

theorem lastOver_eq (last : tree.RatesLast) {n : ℚ} (nonzero : n ≠ 0) :
    tree.lastOver v n = tree.eval v n := by
  cases isTerm : tree.isTerm with
  | true =>
    have rate : tree.degree = some 1 := by
      cases tree with
      | operation left op right =>
        rw [Tree.isTerm, Bool.not_eq_true'] at isTerm
        rwa [RatesLast, isTerm, if_neg Bool.false_ne_true] at last
      | _ => exact last
    rw [lastOver_of_term isTerm, eval_of_degree rate nonzero, zpow_one]
  | false =>
    cases tree with
    | operation left op right =>
      have joins : op.joinsTerms = true := by simpa [Tree.isTerm] using isTerm
      rw [RatesLast, if_pos joins] at last
      rw [lastOver, if_pos joins, eval, eval_of_degree last.1 nonzero,
        eval_of_degree last.2 nonzero, zpow_zero, div_one, zpow_one]
    | _ => cases isTerm

/-- One division after an expression stands for one in each rate, if its last term is a rate and the
others have no dimension. -/
theorem calculate_divided (ordered : tree.Ordered) (plain : tree.hasRate = false ∨ tree.RatesLast)
    {n : ℕ} (positive : 0 < n) : calculate v (tree.divided n) = some (tree.eval v n) := by
  have nonzero : (n : ℚ) ≠ 0 := Nat.cast_ne_zero.2 positive.ne'
  have free (none : tree.hasRate = false) : tree.eval v n = tree.eval v 1 := by
    rw [eval_of_degree (degree_of_no_rate none) nonzero, zpow_zero, div_one]
  rw [divided]
  split
  · next rate =>
    have last : tree.RatesLast := plain.resolve_left (by simp [rate])
    rw [calculate_division ordered, lastOver_eq last nonzero]
  · next none =>
    rw [List.append_nil, calculate_words ordered, free (Bool.eq_false_of_not_eq_true none)]

end Tree

end TelemetryQuery.Sql.Arithmetic
