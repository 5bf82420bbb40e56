import TelemetryQuery.Aggregate.Expression
import TelemetryQuery.Proofs.Sql.Arithmetic
import TelemetryQuery.Proofs.Sql.Formula
import TelemetryQuery.Proofs.Sql.Precedence
/- Rates in arithmetic: what the division by their interval applies to. -/
namespace TelemetryQuery.Aggregate

open TelemetryQuery.Sql (Expr Fragment BinaryOp)
open TelemetryQuery.Sql.Arithmetic (Word Valuation Op Tree calculate)

/-- The operators of SQL that are operators of arithmetic. -/
def arithmetic? : BinaryOp → Option Op
  | .plus => some .plus
  | .minus => some .minus
  | .times => some .times
  | .divide => some .divide
  | _ => none

/-- Whether an expression is made of calls of aggregate functions and numbers by the operators of
arithmetic, signs and brackets. -/
def isArithmetic : Expr → Bool
  | .number _ => true
  | .call name _ _ _ => (Function.ofName? (Sql.nameText name)).isSome
  | .unary op inner => op == .minus && isArithmetic inner
  | .binary left op right => (arithmetic? op).isSome && isArithmetic left && isArithmetic right
  | .nested inner => isArithmetic inner
  | _ => false

/-- An expression, and the same with the SQL of its aggregates in place of the calls. -/
inductive Options.Denotes (options : Options) : Expr → Tree → Prop
  | number (digits : String) : options.Denotes (.number digits) (.number digits)
  | call {name : List Sql.Ident} {parameters mode : String} {arguments : List Expr}
      {function : Function} {part : Part} :
      Function.ofName? (Sql.nameText name) = some function →
      options.aggregate function parameters mode arguments = .ok part →
      options.Denotes (.call name parameters mode arguments)
        (.aggregate part.fragment function.rate)
  | negate {inner : Expr} {tree : Tree} : options.Denotes inner tree →
      options.Denotes (.unary .minus inner) (.negate tree)
  | binary {left right : Expr} {op : BinaryOp} {first last : Tree} {arithmetic : Op} :
      arithmetic? op = some arithmetic → options.Denotes left first →
      options.Denotes right last →
      options.Denotes (.binary left op right) (.operation first arithmetic last)
  | nested {inner : Expr} {tree : Tree} : options.Denotes inner tree →
      options.Denotes (.nested inner) (.nested tree)

section Order

variable {options : Options} {expr : Expr} {tree other : Tree}

theorem Options.Denotes.unique (first : options.Denotes expr tree)
    (second : options.Denotes expr other) : tree = other := by
  induction first generalizing other with
  | number digits =>
    cases second
    rfl
  | call found ok =>
    cases second with
    | call found' ok' =>
      cases found.symm.trans found'
      cases ok.symm.trans ok'
      rfl
  | negate _ ih =>
    cases second with
    | negate inner => rw [ih inner]
  | nested _ ih =>
    cases second with
    | nested inner => rw [ih inner]
  | binary found _ _ ihLeft ihRight =>
    cases second with
    | binary found' left right =>
      cases found.symm.trans found'
      rw [ihLeft left, ihRight right]

theorem precedence_arithmetic {op : BinaryOp} {arithmetic : Op}
    (found : arithmetic? op = some arithmetic) :
    op.precedence = if arithmetic.joinsTerms then 30 else 40 := by
  cases op <;> cases found <;> rfl

theorem Options.Denotes.isFactor (denotes : options.Denotes expr tree) (grip : 40 < expr.grip) :
    tree.isFactor = true := by
  cases denotes with
  | binary found _ _ =>
    rw [Expr.grip, precedence_arithmetic found] at grip
    split at grip <;> omega
  | _ => rfl

theorem Options.Denotes.isTerm (denotes : options.Denotes expr tree) (grip : 30 < expr.grip) :
    tree.isTerm = true := by
  cases denotes with
  | binary found _ _ =>
    rw [Expr.grip, precedence_arithmetic found] at grip
    split at grip
    · omega
    · next factors => simpa [Tree.isTerm] using factors
  | _ => rfl

/-- Operators that are in order in an expression are so with its aggregates in SQL. -/
theorem Options.Denotes.ordered (denotes : options.Denotes expr tree) (ordered : expr.Ordered) :
    tree.Ordered := by
  induction denotes with
  | number digits => trivial
  | call _ _ => trivial
  | negate inner ih => exact ⟨inner.isFactor (ordered.1 (by decide)), ih ordered.2⟩
  | nested _ ih => exact ih ordered
  | @binary left right op first last arithmetic found denotesLeft denotesRight ihLeft ihRight =>
    obtain ⟨gripLeft, gripRight, orderedLeft, orderedRight⟩ := ordered
    rw [precedence_arithmetic found] at gripLeft gripRight
    refine ⟨?_, denotesRight.isTerm ?_, ihLeft orderedLeft, ihRight orderedRight⟩
    · intro factors
      rw [factors] at gripLeft gripRight
      exact ⟨denotesLeft.isTerm (Nat.lt_of_lt_of_le (by decide) gripLeft),
        denotesRight.isFactor gripRight⟩
    · split at gripRight <;> omega

end Order

/-- A compiled part that is the SQL of an arithmetic expression. -/
structure Part.Shows (part : Part) (tree : Tree) : Prop where
  spells : Word.Spells tree.words part.fragment
  changed : part.changed = tree.hasCall
  rate : part.rate = tree.hasRate

section Shows

variable {part first last : Part} {tree left right : Tree}

theorem Part.Shows.negate (shows : part.Shows tree) : (plain "-" ++ part).Shows (.negate tree) :=
  ⟨(Word.Spells.refl [.minus]).append shows.spells, shows.changed, shows.rate⟩

theorem Part.Shows.nested (shows : part.Shows tree) :
    (plain "(" ++ part ++ plain ")").Shows (.nested tree) where
  spells := ((Word.Spells.refl [.opening]).append shows.spells).append (.refl [.closing])
  changed := (Bool.or_false _).trans shows.changed
  rate := (Bool.or_false _).trans shows.rate

theorem Part.Shows.operation {op : BinaryOp} {arithmetic : Op}
    (found : arithmetic? op = some arithmetic) (showsFirst : first.Shows left)
    (showsLast : last.Shows right) :
    (first ++ plain (" " ++ op.text ++ " ") ++ last).Shows (.operation left arithmetic right) := by
  have middle :
      Word.Spells [.blank, arithmetic.word, .blank] (.ofText (" " ++ op.text ++ " ")) := by
    cases op <;> cases found <;> exact ⟨by decide, rfl⟩
  refine ⟨(showsFirst.spells.append middle).append showsLast.spells, ?_, ?_⟩
  · exact congrArg₂ or ((Bool.or_false _).trans showsFirst.changed) showsLast.changed
  · exact congrArg₂ or ((Bool.or_false _).trans showsFirst.rate) showsLast.rate

end Shows

theorem ok_of_bind {ε α β : Type} {first : Except ε α} {next : α → Except ε β} {b : β}
    (ok : (first >>= next) = .ok b) : ∃ a, first = .ok a ∧ next a = .ok b := by
  cases first with
  | error reason => cases ok
  | ok a => exact ⟨a, rfl, ok⟩

theorem Options.aggregate_shows {options : Options} {function : Function}
    {parameters mode : String} {arguments : List Expr} {part : Part}
    (ok : options.aggregate function parameters mode arguments = .ok part) :
    part.Shows (.aggregate part.fragment function.rate) := by
  rw [aggregate] at ok
  split at ok
  · cases ok
  · obtain ⟨parts, -, made⟩ := ok_of_bind ok
    cases made
    exact ⟨.aggregate _, rfl, rfl⟩

/-- Arithmetic is compiled to the same arithmetic on the SQL of its aggregates. -/
theorem Options.expr_denotes (options : Options) : ∀ {expr : Expr} {part : Part},
    isArithmetic expr = true → options.expr expr = .ok part →
    ∃ tree, options.Denotes expr tree ∧ part.Shows tree
  | .number digits, part, _, ok => by
    cases ok
    exact ⟨_, .number digits, .refl _, rfl, rfl⟩
  | .call name parameters mode arguments, part, arithmetic, ok => by
    obtain ⟨function, found⟩ := Option.isSome_iff_exists.1 arithmetic
    rw [Options.expr, found] at ok
    exact ⟨_, .call found ok, options.aggregate_shows ok⟩
  | .unary op inner, part, arithmetic, ok => by
    rw [isArithmetic, Bool.and_eq_true, beq_iff_eq] at arithmetic
    obtain ⟨rfl, arithmetic⟩ := arithmetic
    rw [Options.expr] at ok
    obtain ⟨_, okInner, ⟨⟩⟩ := ok_of_bind ok
    obtain ⟨tree, denotes, shows⟩ := options.expr_denotes arithmetic okInner
    exact ⟨_, .negate denotes, shows.negate⟩
  | .binary left op right, part, arithmetic, ok => by
    simp only [isArithmetic, Bool.and_eq_true] at arithmetic
    obtain ⟨⟨isOp, arithmeticLeft⟩, arithmeticRight⟩ := arithmetic
    obtain ⟨operator, found⟩ := Option.isSome_iff_exists.1 isOp
    rw [Options.expr] at ok
    obtain ⟨_, okLeft, ok⟩ := ok_of_bind ok
    obtain ⟨_, okRight, ⟨⟩⟩ := ok_of_bind ok
    obtain ⟨first, denotesLeft, showsLeft⟩ := options.expr_denotes arithmeticLeft okLeft
    obtain ⟨last, denotesRight, showsRight⟩ := options.expr_denotes arithmeticRight okRight
    exact ⟨_, .binary found denotesLeft denotesRight, showsLeft.operation found showsRight⟩
  | .nested inner, part, arithmetic, ok => by
    rw [isArithmetic] at arithmetic
    rw [Options.expr] at ok
    obtain ⟨_, okInner, ⟨⟩⟩ := ok_of_bind ok
    obtain ⟨tree, denotes, shows⟩ := options.expr_denotes arithmetic okInner
    exact ⟨_, .nested denotes, shows.nested⟩

section Compiled

variable {options : Options} {text : String} {expr : Expr} {compiled : Compiled}

def callOf (name : String) : Expr :=
  .call [⟨name, none⟩] "" "" []

/-- The SQL of `count()`. -/
def counted : Fragment :=
  [.text "count(", .text ")"]

theorem denotes_counting {name : String} {function : Function}
    (found : Function.ofName? (Sql.nameText [⟨name, none⟩]) = some function)
    (counts : function.sqlName = "count") (free : function.checkArity 0 = .ok ()) :
    options.Denotes (callOf name) (.aggregate counted function.rate) := by
  have ok : options.aggregate function "" "" [] =
      .ok { fragment := counted, changed := true, rate := function.rate } := by
    rw [Options.aggregate, List.length_nil, free, counts]
    rfl
  exact .call found ok

theorem denotes_count : options.Denotes (callOf "count") (.aggregate counted false) :=
  denotes_counting (Option.get_mem (by decide +kernel)) (by decide +kernel) (by decide +kernel)

theorem denotes_rate : options.Denotes (callOf "rate") (.aggregate counted true) :=
  denotes_counting (Option.get_mem (by decide +kernel)) (by decide +kernel) (by decide +kernel)

end Compiled

end TelemetryQuery.Aggregate
