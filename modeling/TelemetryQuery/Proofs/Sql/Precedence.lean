import TelemetryQuery.Sql.Statement
/- Expressions are read with their operators in the order of precedence. -/
namespace TelemetryQuery.Sql

variable {op : BinaryOp} {expr left : Expr} {rest : List Token}
  {result : Option (Expr × List Token)}

namespace Expr

/-- How strongly the outermost operator of an expression binds; what is no operation binds most. -/
def grip : Expr → Nat
  | .binary _ op _ => op.precedence
  | _ => 100

/-- Operations whose operands bind more strongly, on the left also as strongly. -/
def Ordered : Expr → Prop
  | .binary left op right =>
    op.precedence ≤ left.grip ∧ op.precedence < right.grip ∧ left.Ordered ∧ right.Ordered
  | .unary op inner => (op ≠ .not → 40 < inner.grip) ∧ inner.Ordered
  | .nested inner => inner.Ordered
  | _ => True

/-- An expression that is no operation of two operands, with its parts in order. -/
structure Single (expr : Expr) : Prop where
  ordered : expr.Ordered
  grip_eq : expr.grip = 100

theorem single_phrase (words : String) : Single (.phrase words) :=
  ⟨trivial, rfl⟩

end Expr

theorem BinaryOp.precedence_lt (op : BinaryOp) : op.precedence < 100 := by
  cases op <;> decide

/-- Whatever is read has a property, which what is left may be a part of. -/
def Yields (P : Expr → List Token → Prop) (result : Option (Expr × List Token)) : Prop :=
  ∀ expr rest, result = some (expr, rest) → P expr rest

namespace Yields

variable {P : Expr → List Token → Prop}

theorem none : Yields P none :=
  fun _ _ read => nomatch read

theorem some (holds : P expr rest) : Yields P (some (expr, rest)) := by
  intro _ _ read
  cases read
  exact holds

theorem bind {α : Type} {x : Option α} {f : α → Option (Expr × List Token)}
    (each : ∀ a, x = .some a → Yields P (f a)) : Yields P (x >>= f) := by
  intro expr rest read
  obtain ⟨a, found, made⟩ := Option.bind_eq_some_iff.1 read
  exact each a found expr rest made

theorem map {x : Option (Expr × List Token)} {f : Expr × List Token → Expr × List Token}
    (each : ∀ a, x = .some a → P (f a).1 (f a).2) : Yields P (x.map f) := by
  intro expr rest read
  obtain ⟨a, found, made⟩ := Option.map_eq_some_iff.1 read
  have holds := each a found
  rwa [made] at holds

theorem mono {Q : Expr → List Token → Prop} (yields : Yields P result)
    (weaker : ∀ expr rest, P expr rest → Q expr rest) : Yields Q result :=
  fun expr rest read => weaker expr rest (yields expr rest read)

end Yields

abbrev Phrases (result : Option (Expr × List Token)) : Prop :=
  Yields (fun expr _ => ∃ words, expr = .phrase words) result

section

variable (operand : Operand) (tokens : List Token)

theorem caseExpr_phrases : Phrases (caseExpr operand tokens) :=
  .bind fun _ _ => .bind fun _ _ => .bind fun _ _ => .bind fun _ _ => .some ⟨_, rfl⟩

theorem rounding_phrases (name : String) : Phrases (rounding operand name tokens) := by
  refine .bind fun _ _ => .bind fun _ _ => ?_
  dsimp only
  split
  · exact .bind fun _ _ => .some ⟨_, rfl⟩
  · exact .bind fun _ _ => .some ⟨_, rfl⟩

theorem slice_phrases (name : String) : Phrases (slice operand name tokens) :=
  .bind fun _ _ => .bind fun _ _ => .bind fun _ _ => .bind fun _ _ => .bind fun _ _ =>
    .some ⟨_, rfl⟩

theorem trimmed_phrases : Phrases (trimmed operand tokens) := by
  refine .bind fun _ _ => .bind fun _ _ => ?_
  dsimp only
  split
  · exact .bind fun _ _ => .bind fun _ _ => .some ⟨_, rfl⟩
  · exact .bind fun _ _ => .some ⟨_, rfl⟩

theorem cast_phrases : Phrases (cast operand tokens) := by
  refine .bind fun _ _ => .bind fun _ _ => .bind fun _ _ => ?_
  split
  · exact .bind fun _ _ => .some ⟨_, rfl⟩
  · exact .none

theorem property_phrases (left : Expr) : Phrases (property operand left tokens) := by
  unfold property
  dsimp only
  split
  · exact .bind fun _ _ => .bind fun _ _ => .some ⟨_, rfl⟩
  · split
    · exact .some ⟨_, rfl⟩
    · exact .none
  · exact .none

theorem keywordTest_phrases (left : Expr) (negated : Bool) (keyword : String) :
    Phrases (keywordTest operand left negated keyword tokens) := by
  unfold keywordTest
  dsimp only
  split
  · exact .bind fun _ _ => .bind fun _ _ => .some ⟨_, rfl⟩
  · exact .bind fun _ _ => .bind fun _ _ => .bind fun _ _ => .some ⟨_, rfl⟩
  · exact .bind fun _ _ => .bind fun _ _ => .some ⟨_, rfl⟩
  · exact .bind fun _ _ => .bind fun _ _ => .some ⟨_, rfl⟩
  · exact .map fun _ _ => ⟨_, rfl⟩
  · exact .map fun _ _ => ⟨_, rfl⟩
  · split
    · exact .some ⟨_, rfl⟩
    · exact .none
  · exact .none

theorem lambda?_phrases : Phrases (lambda? operand tokens) :=
  .bind fun _ _ => .bind fun _ _ => .bind fun _ _ => .bind fun _ _ => .some ⟨_, rfl⟩

end

/-- What is read is no operation of two operands. -/
abbrev Singles (result : Option (Expr × List Token)) : Prop :=
  Yields (fun expr _ => expr.Single) result

theorem Yields.singles (phrases : Phrases result) : Singles result := by
  refine phrases.mono ?_
  rintro _ _ ⟨words, rfl⟩
  exact Expr.single_phrase words

/-- A reader of operands that gives operations in order, whose operators bind more strongly than
the level asked for, and leaves an operator that does not. -/
def Operand.Orders (operand : Operand) : Prop :=
  ∀ level tokens, Yields
    (fun expr rest => expr.Ordered ∧ (level < 100 → level < expr.grip) ∧
      nextPrecedence rest ≤ level) (operand level tokens)

/-- The first of several items is read where the items start. -/
theorem listOf_first {α : Type} {item : List Token → Option (α × List Token)}
    {tokens : List Token} {items : List α} (read : listOf item tokens = some (items, rest)) :
    ∃ first left others, items = first :: others ∧ item tokens = some (first, left) := by
  rw [listOf] at read
  obtain ⟨⟨first, left⟩, found, made⟩ := Option.bind_eq_some_iff.1 read
  refine ⟨first, left, ?_⟩
  dsimp only at made
  split at made
  · cases made
    exact ⟨[], rfl, found⟩
  · split at made
    · obtain ⟨⟨others, last⟩, -, made⟩ := Option.bind_eq_some_iff.1 made
      cases made
      exact ⟨others, rfl, found⟩
    · cases made

theorem closedList_first {operand : Operand} {closing : String} {tokens : List Token}
    {items : List Expr} (read : closedList operand closing tokens = some (items, rest)) :
    ∃ first left others, items = first :: others ∧ operand 0 tokens = some (first, left) := by
  obtain ⟨⟨listed, left⟩, found, made⟩ := Option.bind_eq_some_iff.1 read
  obtain ⟨_, -, made⟩ := Option.bind_eq_some_iff.1 made
  cases made
  exact listOf_first found

section

variable {operand : Operand} (orders : operand.Orders) (tokens : List Token)

theorem call_singles (name : List Ident) : Singles (call operand name tokens) := by
  refine .bind fun ⟨mode, items, rest⟩ _ => ?_
  dsimp only
  split
  · exact .some ⟨trivial, rfl⟩
  · exact .bind fun _ _ => .some ⟨trivial, rfl⟩

theorem named_singles (ident : Ident) : Singles (named operand ident tokens) := by
  unfold named
  split
  · exact call_singles _ _
  · exact .bind fun _ _ => .some ⟨trivial, rfl⟩
  · split
    · exact .some ⟨trivial, rfl⟩
    · exact .some ⟨trivial, rfl⟩

include orders in
theorem keywordExpr_singles {keyword : String}
    (introduced : keywordExpr operand keyword tokens = some result) : Singles result := by
  unfold keywordExpr at introduced
  split at introduced
  · cases introduced
    exact .some ⟨trivial, rfl⟩
  · cases introduced
    exact .some ⟨trivial, rfl⟩
  · cases introduced
    exact .some ⟨trivial, rfl⟩
  · cases introduced
    split
    · exact .none
    · refine .map fun found read => ⟨⟨?_, (orders _ _ _ _ read).1⟩, rfl⟩
      exact fun other => absurd rfl other
  all_goals cases introduced
  · exact (caseExpr_phrases _ _).singles
  · exact (rounding_phrases _ _ _).singles
  · exact (rounding_phrases _ _ _).singles
  · exact (slice_phrases _ _ _).singles
  · exact (slice_phrases _ _ _).singles
  · exact (trimmed_phrases _ _).singles
  · exact (cast_phrases _ _).singles
  · exact .none
  · exact .none

include orders in
theorem wordExpr_singles (ident : Ident) : Singles (wordExpr operand ident tokens) := by
  unfold wordExpr
  split
  · exact named_singles _ _
  · split
    · exact named_singles _ _
    · next introduced => exact keywordExpr_singles orders tokens introduced
    · split
      · exact .none
      · exact named_singles _ _

include orders in
theorem bracketed_singles : Singles (bracketed operand tokens) := by
  unfold bracketed
  split
  · exact .none
  · split
    · next found =>
      have phrases := (lambda?_phrases operand tokens).singles
      rwa [found] at phrases
    · refine .bind fun ⟨items, left⟩ listed => ?_
      dsimp only
      split
      · next inner =>
        obtain ⟨first, _, others, same, read⟩ := closedList_first listed
        cases same
        exact .some ⟨(orders _ _ _ _ read).1, rfl⟩
      · exact .some ⟨trivial, rfl⟩

include orders in
theorem primary_singles : Singles (primary operand tokens) := by
  unfold primary
  split
  · exact wordExpr_singles orders _ _
  · exact .some ⟨trivial, rfl⟩
  · exact .some ⟨trivial, rfl⟩
  · exact .some ⟨trivial, rfl⟩
  · refine .map fun found read => ?_
    obtain ⟨ordered, binds, -⟩ := orders _ _ _ _ read
    exact ⟨⟨fun _ => binds (by decide), ordered⟩, rfl⟩
  · refine .map fun found read => ?_
    obtain ⟨ordered, binds, -⟩ := orders _ _ _ _ read
    exact ⟨⟨fun _ => binds (by decide), ordered⟩, rfl⟩
  · exact bracketed_singles orders _
  · exact .some ⟨trivial, rfl⟩
  · exact .bind fun _ _ => .some ⟨trivial, rfl⟩
  · exact .none

theorem accessPart_single (root part : Expr) : (accessPart root part).Single := by
  unfold accessPart
  split <;> exact ⟨trivial, rfl⟩

theorem accesses_singles {root : Expr} (single : root.Single) :
    Singles (accesses operand root tokens) := by
  fun_induction accesses operand root tokens with
  | case1 => exact .some single
  | case2 root rest _ ih =>
    refine .bind fun ⟨part, left⟩ _ => ?_
    dsimp only
    split
    · next shorter => exact ih part left shorter (accessPart_single root part)
    · exact .none
  | case3 root rest ih =>
    refine .bind fun ⟨index, left⟩ _ => .bind fun left _ => ?_
    split
    · next shorter => exact ih index left shorter (Expr.single_phrase _)
    · exact .none
  | case4 => exact .some single

/-- What an operator of some precedence makes of the expression before it. -/
abbrev Extends (precedence : Nat) (result : Option (Expr × List Token)) : Prop :=
  Yields (fun expr rest => expr.Single ∨
    expr.Ordered ∧ expr.grip = precedence ∧ nextPrecedence rest ≤ precedence) result

theorem Yields.extends (phrases : Phrases result) (precedence : Nat) : Extends precedence result :=
  phrases.singles.mono fun _ _ single => .inl single

include orders in
theorem rightSide_extends (ordered : left.Ordered) (le : op.precedence ≤ left.grip) :
    Extends op.precedence (rightSide operand left op tokens) := by
  have plain : Extends op.precedence ((operand op.precedence tokens).map fun read =>
      (.binary left op read.1, read.2)) := by
    refine .map fun _ read => ?_
    obtain ⟨orderedRight, binds, stops⟩ := orders _ _ _ _ read
    exact .inr ⟨⟨le, binds op.precedence_lt, ordered, orderedRight⟩, rfl, stops⟩
  unfold rightSide
  split
  · split
    · refine .bind fun _ _ => .bind fun _ _ => .bind fun _ _ => ?_
      split
      · exact .some (.inl (Expr.single_phrase _))
      · exact .none
    · exact plain
  · exact plain

theorem nextPrecedence_symbol {symbol : String} (found : BinaryOp.ofSymbol? symbol = some op)
    (rest : List Token) : nextPrecedence (.symbol symbol :: rest) = op.precedence := by
  have other : symbol ≠ "::" := by
    rintro rfl
    cases found
  unfold nextPrecedence
  split
  · next same => exact absurd (Token.symbol.inj (List.cons.inj same).1) other
  · next same =>
    cases same
    rw [found]
    rfl
  · next unmarked same =>
    cases same
    exact (unmarked _ rfl).elim
  · next same => cases same

theorem nextPrecedence_keyword {token : Token} {keyword : String}
    (named : token.keyword? = some keyword) (found : BinaryOp.ofKeyword? keyword = some op)
    (rest : List Token) : nextPrecedence (token :: rest) = op.precedence := by
  have precedence (next : Option String) : keywordPrecedence keyword next = op.precedence := by
    unfold BinaryOp.ofKeyword? at found
    split at found <;> cases found <;> rfl
  cases token with
  | word ident =>
    rw [nextPrecedence, named]
    · exact precedence _
    · simp
    · simp
  | _ => cases named

include orders in
theorem operation_extends (ordered : left.Ordered) (le : nextPrecedence tokens ≤ left.grip) :
    Extends (nextPrecedence tokens) (operation operand left tokens) := by
  unfold operation
  split
  · exact .some (.inl (Expr.single_phrase _))
  · next symbol rest _ =>
    refine .bind fun op found => ?_
    rw [nextPrecedence_symbol found] at le ⊢
    exact rightSide_extends orders rest ordered le
  · next token rest _ _ =>
    refine .bind fun keyword named => ?_
    split
    · next op found =>
      rw [nextPrecedence_keyword named found] at le ⊢
      exact rightSide_extends orders rest ordered le
    · split
      · exact (property_phrases _ _ _).extends _
      · exact .bind fun _ _ => (keywordTest_phrases _ _ _ _ _).extends _
      · exact (keywordTest_phrases _ _ _ _ _).extends _
  · exact .none

theorem nextPrecedence_le : nextPrecedence tokens ≤ 100 := by
  have operator (found : Option BinaryOp) : found.elim 0 BinaryOp.precedence ≤ 100 := by
    cases found with
    | none => exact Nat.zero_le _
    | some op => exact Nat.le_of_lt op.precedence_lt
  have keyword (keyword : String) (next : Option String) :
      keywordPrecedence keyword next ≤ 100 := by
    unfold keywordPrecedence
    split
    case h_13 => split <;> decide
    case h_14 => exact operator _
    all_goals decide
  unfold nextPrecedence
  split
  · decide
  · exact operator _
  · next token rest _ _ =>
    cases token.keyword? with
    | none => exact Nat.zero_le _
    | some word => exact keyword word _
  · exact Nat.zero_le _

include orders in
theorem operations_orders (level : Nat) (ordered : left.Ordered)
    (binds : level < 100 → level < left.grip) (le : nextPrecedence tokens ≤ left.grip) :
    Yields (fun expr rest => expr.Ordered ∧ (level < 100 → level < expr.grip) ∧
      nextPrecedence rest ≤ level) (operations operand level left tokens) := by
  fun_induction operations operand level left tokens with
  | case1 left tokens stops => exact .some ⟨ordered, binds, stops⟩
  | case2 left tokens goes ih =>
    refine .bind fun ⟨next, rest⟩ made => ?_
    dsimp only
    split
    · next shorter =>
      rcases operation_extends orders tokens ordered le _ _ made with
        single | ⟨ordered, same, stops⟩
      · refine ih next rest shorter single.ordered ?_ ?_
        · rw [single.grip_eq]
          exact id
        · rw [single.grip_eq]
          exact nextPrecedence_le rest
      · refine ih next rest shorter ordered ?_ ?_
        · intro _
          omega
        · omega
    · exact .none

end

/-- Reading gives operations in the order of precedence. -/
theorem readExpr_orders (depth : Nat) : (readExpr depth).Orders := by
  induction depth with
  | zero => exact fun _ _ => .none
  | succ depth ih =>
    intro level tokens
    refine .bind fun ⟨root, more⟩ read => .bind fun ⟨left, rest⟩ accessed => ?_
    have single := accesses_singles more (primary_singles ih tokens _ _ read) _ _ accessed
    refine operations_orders ih rest level single.ordered ?_ ?_
    · rw [single.grip_eq]
      exact id
    · rw [single.grip_eq]
      exact nextPrecedence_le rest

theorem orStar_ordered {operand : Operand} (orders : operand.Orders) (tokens : List Token) :
    Yields (fun expr _ => expr.Ordered) (orStar operand tokens) := by
  have any : Yields (fun expr _ => expr.Ordered) (expression operand tokens) :=
    (orders 0 tokens).mono fun _ _ holds => holds.1
  unfold orStar
  split
  · exact .some trivial
  · split
    · refine .bind fun found _ => ?_
      split
      · exact .some trivial
      · exact any
    · exact any
  · exact .none

/-- A selected expression is read where the selection starts. -/
theorem selectItem?_orStar {tokens : List Token}
    (read : selectItem? tokens = some (some expr, rest)) :
    ∃ left, orStar (readExpr depthLimit) tokens = some (expr, left) := by
  obtain ⟨⟨item, left⟩, starred, made⟩ := Option.bind_eq_some_iff.1 read
  suffices same : item = expr from ⟨left, same ▸ starred⟩
  dsimp only at made
  split at made
  · cases made
  · split at made
    · cases made
    · obtain ⟨_, -, made⟩ := Option.bind_eq_some_iff.1 made
      cases made
      rfl
  · obtain ⟨_, -, made⟩ := Option.bind_eq_some_iff.1 made
    cases made
    rfl

/-- The only expression of a statement is read after `SELECT`, or after one more word. -/
theorem statement?_orStar {tokens : List Token}
    (read : statement? tokens = some (some expr, rest)) :
    ∃ after start left, skipKeywords? ["SELECT"] tokens = some after ∧ start <:+ after ∧
      orStar (readExpr depthLimit) start = some (expr, left) := by
  unfold statement? at read
  split at read
  · cases read
  · obtain ⟨⟨items, more⟩, selected, made⟩ := Option.bind_eq_some_iff.1 read
    obtain ⟨⟨united, left⟩, -, made⟩ := Option.bind_eq_some_iff.1 made
    obtain ⟨last, -, made⟩ := Option.bind_eq_some_iff.1 made
    have single : items = [some expr] := by
      split at made <;> cases made
      rfl
    subst single
    obtain ⟨after, skipped, selected⟩ := Option.bind_eq_some_iff.1 selected
    obtain ⟨⟨listed, _⟩, list, made⟩ := Option.bind_eq_some_iff.1 selected
    obtain ⟨_, -, made⟩ := Option.bind_eq_some_iff.1 made
    cases made
    obtain ⟨first, _, others, same, item⟩ := listOf_first list
    cases same
    obtain ⟨left, starred⟩ := selectItem?_orStar item
    refine ⟨after, _, left, skipped, ?_, starred⟩
    split
    · exact List.tail_suffix after
    · exact List.tail_suffix after
    · exact List.suffix_rfl

/-- The first of several statements is read where they start. -/
theorem statements?_first {ident : Ident} {tokens : List Token} {first : Option Expr}
    {others : List (Option Expr)}
    (read : statements? (.word ident :: tokens) = some (first :: others)) :
    ∃ rest, statement? (.word ident :: tokens) = some (first, rest) := by
  rw [statements?] at read
  · obtain ⟨⟨found, rest⟩, single, made⟩ := Option.bind_eq_some_iff.1 read
    suffices same : found = first from ⟨rest, same ▸ single⟩
    dsimp only at made
    split at made
    · cases made
      rfl
    · split at made
      · obtain ⟨_, -, made⟩ := Option.bind_eq_some_iff.1 made
        cases made
        rfl
      · cases made
    · split at made <;> cases made
      rfl
  · intro same
    cases same

/-- What a text is read as stands where its tokens start, or after the first of them. -/
theorem read_orStar {text : String} (ok : read text = .ok expr) :
    ∃ tokens start left, tokens? false text.toList = some tokens ∧ start <:+ tokens ∧
      orStar (readExpr depthLimit) start = some (expr, left) := by
  unfold read at ok
  dsimp only at ok
  split at ok
  · next found =>
    cases ok
    obtain ⟨tokens, lexed, stated⟩ := Option.bind_eq_some_iff.1 found
    obtain ⟨rest, single⟩ := statements?_first stated
    obtain ⟨after, start, left, skipped, suffix, starred⟩ := statement?_orStar single
    cases skipped
    exact ⟨tokens, start, left, lexed, suffix, starred⟩
  · cases ok
  · cases ok

/-- A text is read with its operators in the order of precedence. -/
theorem read_ordered {text : String} (ok : read text = .ok expr) : expr.Ordered := by
  obtain ⟨_, start, left, -, -, starred⟩ := read_orStar ok
  exact orStar_ordered (readExpr_orders depthLimit) start expr left starred

end TelemetryQuery.Sql
