import TelemetryQuery.Proofs.Filter.Word
/- What the readers of tokens accept: exactly the words of what they give. -/
namespace TelemetryQuery.Filter

variable {kind : Kind} {token : Token}

namespace Reader

variable {α β : Type} {scope : Scope} {tokens rest : List Token}

theorem pure_run_ok {a b : α} :
    (Pure.pure a : Reader α).run scope tokens = (.ok b, rest) ↔ a = b ∧ tokens = rest := by
  constructor
  · intro h
    cases h
    exact ⟨rfl, rfl⟩
  · rintro ⟨rfl, rfl⟩
    rfl

/-- Two readers in a row accept what the first accepts and then the second. -/
theorem bind_run_ok {first : Reader α} {next : α → Reader β} {b : β} :
    (first >>= next).run scope tokens = (.ok b, rest) ↔
      ∃ a left, first.run scope tokens = (.ok a, left) ∧
        (next a).run scope left = (.ok b, rest) := by
  change (bind first next).run scope tokens = _ ↔ _
  simp only [bind]
  constructor
  · intro h
    split at h
    · next a left eq => exact ⟨a, left, eq, h⟩
    · cases h
  · rintro ⟨a, left, eq, h⟩
    rw [eq]
    exact h

theorem expecting_run_ok {kinds : List Kind} {a : α} :
    (expecting kinds : Reader α).run scope tokens ≠ (.ok a, rest) := by
  intro h
  cases h

theorem peek_run_ok :
    peek.run scope tokens = (.ok kind, rest) ↔ nextKind tokens = kind ∧ tokens = rest := by
  constructor
  · intro h
    cases h
    exact ⟨rfl, rfl⟩
  · rintro ⟨rfl, rfl⟩
    rfl

theorem take_run_ok {kinds : List Kind} {choose : Token → Option α} {a : α} :
    (take kinds choose).run scope tokens = (.ok a, rest) ↔
      ∃ token, tokens = token :: rest ∧ choose token = some a := by
  cases tokens with
  | nil => simp [take]
  | cons token left =>
    cases h : choose token with
    | none => simp [take, h]
    | some b =>
      simp only [take, h, List.cons.injEq]
      constructor
      · intro eq
        cases eq
        exact ⟨token, ⟨rfl, rfl⟩, h⟩
      · rintro ⟨found, ⟨rfl, rfl⟩, chosen⟩
        rw [h] at chosen
        cases chosen
        rfl

theorem expect_run_ok {u : Unit} :
    (expect kind).run scope tokens = (.ok u, rest) ↔
      ∃ token, tokens = token :: rest ∧ token.kind = kind := by
  rw [expect, take_run_ok]
  simp

theorem within_run {rule : Rule} {reader : Reader α} :
    (within rule reader).run scope tokens = reader.run (scope.enter rule) tokens :=
  rfl

/-- A reader that takes a token of one kind and goes on. -/
theorem expect_bind_run_ok {next : Unit → Reader α} {a : α} :
    (expect kind >>= next).run scope tokens = (.ok a, rest) ↔
      ∃ token left, tokens = token :: left ∧ token.kind = kind ∧
        (next ()).run scope left = (.ok a, rest) := by
  rw [bind_run_ok]
  constructor
  · rintro ⟨⟨⟩, left, taken, h⟩
    obtain ⟨token, rfl, same⟩ := expect_run_ok.1 taken
    exact ⟨token, left, rfl, same, h⟩
  · rintro ⟨token, left, rfl, same, h⟩
    exact ⟨(), left, expect_run_ok.2 ⟨token, rfl, same⟩, h⟩

/-- A reader that looks at the next kind and goes on. -/
theorem peek_bind_run_ok {next : Kind → Reader α} {a : α} :
    (peek >>= next).run scope tokens = (.ok a, rest) ↔
      (next (nextKind tokens)).run scope tokens = (.ok a, rest) := by
  rw [bind_run_ok]
  constructor
  · rintro ⟨kind, left, looked, h⟩
    obtain ⟨rfl, rfl⟩ := peek_run_ok.1 looked
    exact h
  · intro h
    exact ⟨_, _, peek_run_ok.2 ⟨rfl, rfl⟩, h⟩

/-- A reader whose result is made of that of another. -/
theorem bind_pure_run_ok {reader : Reader α} {make : α → β} {b : β} :
    (reader >>= fun a => Pure.pure (make a)).run scope tokens = (.ok b, rest) ↔
      ∃ a, reader.run scope tokens = (.ok a, rest) ∧ make a = b := by
  rw [bind_run_ok]
  constructor
  · rintro ⟨a, left, ok, h⟩
    obtain ⟨rfl, rfl⟩ := pure_run_ok.1 h
    exact ⟨a, ok, rfl⟩
  · rintro ⟨a, ok, rfl⟩
    exact ⟨a, rest, ok, pure_run_ok.2 ⟨rfl, rfl⟩⟩

/-- A reader whose results are what some words say. It takes the words of a result, and it gives
every proper result whose words it meets, up to what a view of results leaves out. -/
structure Spelled {γ : Type} (reader : Reader α) (words : α → List Word) (proper : α → Prop)
    (view : α → γ) : Prop where
  sound : ∀ {scope : Scope} {tokens : List Token} {a : α} {rest : List Token},
    reader.run scope tokens = (.ok a, rest) →
      proper a ∧ ∃ used, tokens = used ++ rest ∧ used.map Token.word = words a
  complete : ∀ {a : α} {used : List Token} (scope : Scope) (rest : List Token), proper a →
    used.map Token.word = words a →
      ∃ b, reader.run scope (used ++ rest) = (.ok b, rest) ∧ view b = view a

theorem Spelled.run_ok {reader : Reader α} {words : α → List Word} {proper : α → Prop}
    (reads : reader.Spelled words proper id) {a : α} :
    reader.run scope tokens = (.ok a, rest) ↔
      proper a ∧ ∃ used, tokens = used ++ rest ∧ used.map Token.word = words a := by
  constructor
  · intro h
    exact reads.sound h
  · rintro ⟨properA, used, rfl, spell⟩
    obtain ⟨b, ok, rfl⟩ := reads.complete scope rest properA spell
    exact ok

/-- The words of items behind a first one, each with its comma. -/
def tailWords (words : α → List Word) (items : List α) : List Word :=
  items.flatMap fun item => .fixed .comma :: words item

theorem commaWords_cons (words : α → List Word) (first : α) (items : List α) :
    commaWords ((first :: items).map words) = words first ++ tailWords words items := by
  induction items generalizing first with
  | nil => simp [commaWords, tailWords]
  | cons second items ih =>
    rw [List.map_cons, List.map_cons, commaWords, ← List.map_cons, ih]
    · simp only [tailWords, List.flatMap_cons, List.cons_append]
    · simp

section Items

variable {γ : Type} {item : Reader α} {words : α → List Word} {proper : α → Prop} {view : α → γ}
  {close : Kind}

/-- A comma goes on with an item and with what follows it. -/
theorem moreItems_comma (close : Kind) {after left : List Token} {a : α}
    (comma : token.kind = .comma) (first : item.run scope after = (.ok a, left)) :
    (moreItems item close scope (token :: after)).1 =
        (moreItems item close scope left).1.map (a :: ·) ∧
      (moreItems item close scope (token :: after)).2.1 =
        (moreItems item close scope left).2.1 := by
  rw [moreItems, if_pos comma]
  split
  · next b left' eq =>
    obtain ⟨rfl, rfl⟩ : a = b ∧ left = left' := by simpa [first] using eq
    exact ⟨rfl, rfl⟩
  · next error left' eq =>
    rw [first] at eq
    cases eq

theorem moreItems_close (item : Reader α) (scope : Scope) (after : List Token)
    (other : close ≠ .comma) (closing : token.kind = close) :
    (moreItems item close scope (token :: after)).1 = .ok [] ∧
      (moreItems item close scope (token :: after)).2.1 = after := by
  rw [moreItems]
  simp [closing, other]

theorem moreItems_sound (reads : item.Spelled words proper view) (fixed : close.isOpen = false)
    {items : List α} (h : (moreItems item close scope tokens).1 = .ok items) :
    (∀ a ∈ items, proper a) ∧ ∃ used, tokens = used ++ (moreItems item close scope tokens).2.1 ∧
      used.map Token.word = tailWords words items ++ [Word.fixed close] := by
  induction tokens using moreItems.induct item close scope generalizing items with
  | case1 => simp [moreItems] at h
  | case2 token after comma a left first le result last lastLe eq ih =>
    obtain ⟨more, ending⟩ := moreItems_comma close comma first
    rw [more] at h
    obtain ⟨rest, ok, rfl⟩ : ∃ rest, (moreItems item close scope left).1 = .ok rest ∧
        a :: rest = items := by
      cases ok : (moreItems item close scope left).1 with
      | error error => simp [ok, Except.map] at h
      | ok rest => exact ⟨rest, rfl, by simpa [ok, Except.map] using h⟩
    obtain ⟨properRest, usedRest, eqRest, spellRest⟩ := ih ok
    obtain ⟨properFirst, usedFirst, eqFirst, spellFirst⟩ := reads.sound first
    refine ⟨by simpa using ⟨properFirst, properRest⟩, token :: usedFirst ++ usedRest, ?_, ?_⟩
    · rw [ending, List.append_assoc, ← eqRest, List.cons_append, eqFirst]
    · have word : token.word = .fixed .comma := (Token.word_fixed rfl).2 comma
      simp only [List.cons_append, List.map_cons, List.map_append, word, spellFirst, spellRest,
        tailWords, List.flatMap_cons, List.append_assoc]
  | case3 token after comma error left failed =>
    rw [moreItems, if_pos comma] at h
    split at h
    · next a left' eq =>
      rw [failed] at eq
      cases eq
    · cases h
  | case4 token after comma closing =>
    have other : close ≠ .comma := closing ▸ comma
    obtain ⟨ok, ending⟩ := moreItems_close item scope after other closing
    rw [ok] at h
    cases h
    refine ⟨by simp, [token], by rw [ending]; rfl, ?_⟩
    simp only [List.map_cons, List.map_nil, (Token.word_fixed fixed).2 closing, tailWords,
      List.flatMap_nil, List.nil_append]
  | case5 token after comma closing =>
    rw [moreItems] at h
    simp [comma, closing] at h

theorem moreItems_complete (scope : Scope) (rest : List Token)
    (reads : item.Spelled words proper view) (fixed : close.isOpen = false)
    (other : close ≠ .comma) {items : List α} (properItems : ∀ a ∈ items, proper a)
    {used : List Token}
    (spell : used.map Token.word = tailWords words items ++ [Word.fixed close]) :
    ∃ found, (moreItems item close scope (used ++ rest)).1 = .ok found ∧
      (moreItems item close scope (used ++ rest)).2.1 = rest ∧ found.map view = items.map view := by
  induction items generalizing used with
  | nil =>
    obtain ⟨token, rfl, word⟩ : ∃ token, used = [token] ∧ token.word = .fixed close := by
      simpa [tailWords, List.map_eq_singleton_iff] using spell
    obtain ⟨ok, ending⟩ := moreItems_close item scope rest other ((Token.word_fixed fixed).1 word)
    exact ⟨[], ok, ending, rfl⟩
  | cons a items ih =>
    simp only [tailWords, List.flatMap_cons, List.cons_append, List.append_assoc] at spell
    obtain ⟨token, left, rfl, comma, spell⟩ := List.map_eq_cons_iff.1 spell
    obtain ⟨usedFirst, usedRest, rfl, spellFirst, spellRest⟩ := List.map_eq_append_iff.1 spell
    obtain ⟨b, first, same⟩ :=
      reads.complete scope (usedRest ++ rest) (properItems a (by simp)) spellFirst
    obtain ⟨found, ok, ending, sameRest⟩ :=
      ih (fun c mem => properItems c (by simp [mem])) spellRest
    obtain ⟨more, endingMore⟩ := moreItems_comma close ((Token.word_fixed rfl).1 comma) first
    refine ⟨b :: found, ?_, ?_, by simp only [List.map_cons, same, sameRest]⟩
    · rw [List.cons_append, List.append_assoc, more, ok]
      rfl
    · rw [List.cons_append, List.append_assoc, endingMore, ending]

/-- Items with commas between them and a closing token are read as they are spelled. -/
theorem items_spelled (reads : item.Spelled words proper view) (fixed : close.isOpen = false)
    (other : close ≠ .comma) :
    (Reader.items item close).Spelled
      (fun items => commaWords (items.map words) ++ [Word.fixed close])
      (fun items => items ≠ [] ∧ ∀ a ∈ items, proper a) (List.map view) where
  sound {scope tokens all rest} h := by
    obtain ⟨first, left, ok, more⟩ := bind_run_ok.1 h
    obtain ⟨properFirst, usedFirst, rfl, spellFirst⟩ := reads.sound ok
    simp only [Prod.mk.injEq] at more
    obtain ⟨more, rfl⟩ := more
    obtain ⟨items, ok, rfl⟩ : ∃ items, (moreItems item close scope left).1 = .ok items ∧
        first :: items = all := by
      cases ok : (moreItems item close scope left).1 with
      | error error => simp [ok, Except.map] at more
      | ok items => exact ⟨items, rfl, by simpa [ok, Except.map] using more⟩
    obtain ⟨properRest, usedRest, eq, spellRest⟩ := moreItems_sound reads fixed ok
    refine ⟨⟨by simp, by simpa using ⟨properFirst, properRest⟩⟩, usedFirst ++ usedRest, ?_, ?_⟩
    · rw [List.append_assoc, ← eq]
    · rw [List.map_append, spellFirst, spellRest, commaWords_cons, List.append_assoc]
  complete {all used} scope rest proper spell := by
    obtain ⟨nonempty, properAll⟩ := proper
    cases all with
    | nil => exact absurd rfl nonempty
    | cons first items =>
      rw [commaWords_cons, List.append_assoc] at spell
      obtain ⟨usedFirst, usedRest, rfl, spellFirst, spellRest⟩ := List.map_eq_append_iff.1 spell
      obtain ⟨b, ok, same⟩ :=
        reads.complete scope (usedRest ++ rest) (properAll first (by simp)) spellFirst
      obtain ⟨found, more, ending, sameRest⟩ := moreItems_complete scope rest reads fixed other
        (fun a mem => properAll a (by simp [mem])) spellRest
      refine ⟨b :: found, ?_, by simp only [List.map_cons, same, sameRest]⟩
      refine bind_run_ok.2 ⟨b, usedRest ++ rest, by rw [List.append_assoc, ok], ?_⟩
      simp only [more, ending, Except.map]

end Items

end Reader

theorem literal?_eq_some {literal : Literal} :
    literal? token = some literal ↔ token.word = literal.word := by
  cases literal <;> rw [Literal.word, Token.word_open rfl] <;> unfold literal? <;> split <;>
    simp_all

theorem value_spelled : value.Spelled (fun literal => [literal.word]) (fun _ => True) id where
  sound h := by
    obtain ⟨token, rfl, found⟩ := Reader.take_run_ok.1 h
    exact ⟨trivial, [token], rfl, by simp [literal?_eq_some.1 found]⟩
  complete {literal used} scope rest _ spell := by
    obtain ⟨token, rfl, word⟩ : ∃ token, used = [token] ∧ token.word = literal.word := by
      simpa [List.map_eq_singleton_iff] using spell
    exact ⟨literal, Reader.take_run_ok.2 ⟨token, rfl, literal?_eq_some.2 word⟩, rfl⟩

theorem valueList_spelled {close : Kind} (fixed : close.isOpen = false) (other : close ≠ .comma) :
    (valueList close).Spelled (fun values => literalWords values ++ [Word.fixed close]) (· ≠ []) id
    where
  sound h := by
    obtain ⟨⟨nonempty, -⟩, used⟩ := (Reader.items_spelled value_spelled fixed other).sound h
    exact ⟨nonempty, used⟩
  complete {values used} scope rest nonempty spell := by
    obtain ⟨found, ok, same⟩ := (Reader.items_spelled value_spelled fixed other).complete
      (scope.enter .valueList) rest ⟨nonempty, by simp⟩ spell
    exact ⟨found, ok, by simpa using same⟩

@[simp]
theorem nextKind_cons (token : Token) (tokens : List Token) :
    nextKind (token :: tokens) = token.kind :=
  rfl

/-- One value, which something is made of. -/
theorem madeOf_run_ok {α : Type} {make : Literal → α} {a : α} {scope : Scope}
    {tokens rest : List Token} :
    (value >>= fun literal => pure (make literal)).run scope tokens = (.ok a, rest) ↔
      ∃ token literal, tokens = token :: rest ∧ token.word = literal.word ∧ make literal = a := by
  rw [Reader.bind_pure_run_ok]
  constructor
  · rintro ⟨literal, ok, made⟩
    obtain ⟨token, rfl, found⟩ := Reader.take_run_ok.1 ok
    exact ⟨token, literal, rfl, literal?_eq_some.1 found, made⟩
  · rintro ⟨token, literal, rfl, found, made⟩
    exact ⟨literal, Reader.take_run_ok.2 ⟨token, rfl, literal?_eq_some.2 found⟩, made⟩

/-- Values between brackets, which something is made of. -/
theorem bracketed_run_ok {α : Type} {opening close : Kind} (fixedOpening : opening.isOpen = false)
    (fixed : close.isOpen = false) (other : close ≠ .comma) {make : List Literal → α} {a : α}
    {scope : Scope} {tokens rest : List Token} :
    (Reader.expect opening >>= fun _ => valueList close >>= fun values =>
        pure (make values)).run scope tokens = (.ok a, rest) ↔
      ∃ used values, tokens = used ++ rest ∧ values ≠ [] ∧ make values = a ∧
        used.map Token.word = .fixed opening :: literalWords values ++ [Word.fixed close] := by
  rw [Reader.expect_bind_run_ok]
  simp only [Reader.bind_pure_run_ok, (valueList_spelled fixed other).run_ok]
  constructor
  · rintro ⟨token, left, rfl, opened, values, ⟨nonempty, used, rfl, spell⟩, made⟩
    refine ⟨token :: used, values, rfl, nonempty, made, ?_⟩
    rw [List.map_cons, spell, (Token.word_fixed fixedOpening).2 opened, List.cons_append]
  · rintro ⟨used, values, rfl, nonempty, made, spell⟩
    obtain ⟨token, used, rfl, opened, spell⟩ := List.map_eq_cons_iff.1 spell
    exact ⟨token, _, rfl, (Token.word_fixed fixedOpening).1 opened, values,
      ⟨nonempty, used, rfl, spell⟩, made⟩

/-- An operator and a value, which something is made of. -/
theorem comparedWith_run_ok {α : Type} {operator : Kind} (fixed : operator.isOpen = false)
    {make : Literal → α} {a : α} {scope : Scope} {tokens rest : List Token} :
    (Reader.expect operator >>= fun _ => value >>= fun literal =>
        pure (make literal)).run scope tokens = (.ok a, rest) ↔
      ∃ used literal, tokens = used ++ rest ∧ make literal = a ∧
        used.map Token.word = [.fixed operator, literal.word] := by
  rw [Reader.expect_bind_run_ok]
  simp only [madeOf_run_ok]
  constructor
  · rintro ⟨token, _, rfl, kind, operand, literal, rfl, found, made⟩
    refine ⟨[token, operand], literal, rfl, made, ?_⟩
    rw [List.map_cons, List.map_singleton, (Token.word_fixed fixed).2 kind, found]
  · rintro ⟨used, literal, rfl, made, spell⟩
    obtain ⟨token, used, rfl, kind, spell⟩ := List.map_eq_cons_iff.1 spell
    obtain ⟨operand, rfl, found⟩ := List.map_eq_singleton_iff.1 spell
    exact ⟨token, _, rfl, (Token.word_fixed fixed).1 kind, operand, literal, rfl, found, made⟩

/-- The two ends of a range, which something is made of. -/
theorem between_run_ok {α : Type} {make : Literal → Literal → α} {a : α} {scope : Scope}
    {tokens rest : List Token} :
    (Reader.expect .between >>= fun _ => value >>= fun low => Reader.expect .and >>= fun _ =>
        value >>= fun high => pure (make low high)).run scope tokens = (.ok a, rest) ↔
      ∃ used low high, tokens = used ++ rest ∧ make low high = a ∧
        used.map Token.word = [.fixed .between, low.word, .fixed .and, high.word] := by
  constructor
  · intro h
    obtain ⟨token, left, rfl, kind, h⟩ := Reader.expect_bind_run_ok.1 h
    obtain ⟨low, left, ok, h⟩ := Reader.bind_run_ok.1 h
    obtain ⟨usedHigh, high, rfl, made, spellHigh⟩ := (comparedWith_run_ok rfl).1 h
    obtain ⟨-, usedLow, rfl, spellLow⟩ := value_spelled.sound ok
    refine ⟨token :: usedLow ++ usedHigh, low, high, by simp, made, ?_⟩
    rw [List.map_append, List.map_cons, (Token.word_fixed rfl).2 kind, spellLow, spellHigh]
    rfl
  · rintro ⟨used, low, high, rfl, made, spell⟩
    obtain ⟨token, used, rfl, kind, spell⟩ := List.map_eq_cons_iff.1 spell
    obtain ⟨first, used, rfl, foundLow, spell⟩ := List.map_eq_cons_iff.1 spell
    have ok : value.run scope (first :: (used ++ rest)) = (.ok low, used ++ rest) :=
      Reader.take_run_ok.2 ⟨first, rfl, literal?_eq_some.2 foundLow⟩
    exact Reader.expect_bind_run_ok.2 ⟨token, _, rfl, (Token.word_fixed rfl).1 kind,
      Reader.bind_run_ok.2 ⟨low, _, ok, (comparedWith_run_ok rfl).2 ⟨used, high, rfl, made, spell⟩⟩⟩

/-- The first word of what was read tells the kind of the next token. -/
theorem nextKind_of_words {kind : Kind} {words : List Word} {used : List Token}
    (fixed : kind.isOpen = false) (spell : used.map Token.word = .fixed kind :: words)
    (rest : List Token) : nextKind (used ++ rest) = kind := by
  obtain ⟨token, left, rfl, word, -⟩ := List.map_eq_cons_iff.1 spell
  exact (Token.word_fixed fixed).1 word

theorem inClause_spelled :
    inClause.Spelled (fun operands => .fixed .isIn :: operands.words) Operands.Proper id where
  sound {scope tokens operands rest} h := by
    simp only [inClause, Reader.within_run, Reader.expect_bind_run_ok, Reader.peek_bind_run_ok] at h
    obtain ⟨token, left, rfl, isIn, h⟩ := h
    have word : token.word = .fixed .isIn := (Token.word_fixed rfl).2 isIn
    split at h
    · rw [bracketed_run_ok rfl rfl (by decide)] at h
      obtain ⟨used, values, rfl, nonempty, rfl, spell⟩ := h
      exact ⟨nonempty, token :: used, rfl, by rw [List.map_cons, word, spell]; rfl⟩
    · rw [bracketed_run_ok rfl rfl (by decide)] at h
      obtain ⟨used, values, rfl, nonempty, rfl, spell⟩ := h
      exact ⟨nonempty, token :: used, rfl, by rw [List.map_cons, word, spell]; rfl⟩
    · split at h
      · obtain ⟨operand, value, rfl, found, rfl⟩ := madeOf_run_ok.1 h
        refine ⟨trivial, [token, operand], rfl, ?_⟩
        rw [List.map_cons, List.map_singleton, word, found]
        rfl
      · exact absurd h Reader.expecting_run_ok
  complete {operands used} scope rest proper spell := by
    obtain ⟨token, used, rfl, word, spell⟩ := List.map_eq_cons_iff.1 spell
    refine ⟨operands, ?_, rfl⟩
    simp only [inClause, Reader.within_run, Reader.expect_bind_run_ok, Reader.peek_bind_run_ok]
    refine ⟨token, used ++ rest, rfl, (Token.word_fixed rfl).1 word, ?_⟩
    cases operands with
    | paren values =>
      rw [nextKind_of_words rfl spell]
      exact (bracketed_run_ok rfl rfl (by decide)).2 ⟨used, values, rfl, proper, rfl, spell⟩
    | bracket values =>
      rw [nextKind_of_words rfl spell]
      exact (bracketed_run_ok rfl rfl (by decide)).2 ⟨used, values, rfl, proper, rfl, spell⟩
    | single value =>
      obtain ⟨token, rfl, found⟩ := List.map_eq_singleton_iff.1 spell
      have kind : token.kind = value.word.kind := congrArg Word.kind found
      simp only [List.cons_append, nextKind_cons, kind]
      cases value <;> exact madeOf_run_ok.2 ⟨token, _, rfl, found, rfl⟩

theorem Matcher.ofKind?_eq_some {matcher : Matcher} :
    Matcher.ofKind? kind = some matcher ↔ kind = matcher.kind := by
  cases kind <;> cases matcher <;> simp [Matcher.ofKind?, Matcher.kind]

theorem Relation.ofKind?_eq_some {relation : Relation} :
    Relation.ofKind? kind = some relation ↔ kind = relation.kind := by
  cases kind <;> cases relation <;> simp [Relation.ofKind?, Relation.kind]

theorem Matcher.kind_isOpen (matcher : Matcher) : matcher.kind.isOpen = false := by
  cases matcher <;> rfl

theorem Relation.kind_isOpen (relation : Relation) : relation.kind.isOpen = false := by
  cases relation <;> rfl

theorem testAfter_spelled (negated : Bool) :
    (testAfter negated).Spelled Test.core (fun found => found.negated = negated ∧ found.Proper)
      id where
  sound {scope tokens found rest} h := by
    simp only [testAfter, Reader.peek_bind_run_ok] at h
    split at h
    · obtain ⟨used, low, high, rfl, rfl, spell⟩ := between_run_ok.1 h
      exact ⟨⟨rfl, trivial⟩, used, rfl, spell⟩
    · obtain ⟨token, left, rfl, exists', h⟩ := Reader.expect_bind_run_ok.1 h
      obtain ⟨rfl, rfl⟩ := Reader.pure_run_ok.1 h
      exact ⟨⟨rfl, trivial⟩, [token], rfl, by simp [(Token.word_fixed rfl).2 exists', Test.core]⟩
    · obtain ⟨operands, ok, rfl⟩ := Reader.bind_pure_run_ok.1 h
      obtain ⟨proper, used, rfl, spell⟩ := inClause_spelled.sound ok
      exact ⟨⟨rfl, proper⟩, used, rfl, spell⟩
    · split at h
      · next _ _ matcher isMatcher =>
        rw [Matcher.ofKind?_eq_some.1 isMatcher] at h
        obtain ⟨used, literal, rfl, rfl, spell⟩ := (comparedWith_run_ok matcher.kind_isOpen).1 h
        exact ⟨⟨rfl, trivial⟩, used, rfl, spell⟩
      · next relation _ isRelation =>
        split at h
        · exact absurd h Reader.expecting_run_ok
        · next positive =>
          rw [Relation.ofKind?_eq_some.1 isRelation] at h
          obtain ⟨used, literal, rfl, rfl, spell⟩ := (comparedWith_run_ok relation.kind_isOpen).1 h
          exact ⟨⟨(Bool.eq_false_iff.2 positive).symm, trivial⟩, used, rfl, spell⟩
      · exact absurd h Reader.expecting_run_ok
  complete {found used} scope rest proper spell := by
    obtain ⟨rfl, proper⟩ := proper
    refine ⟨found, ?_, rfl⟩
    simp only [testAfter, Reader.peek_bind_run_ok]
    cases found with
    | relation op value =>
      rw [nextKind_of_words op.kind_isOpen spell]
      cases op <;> exact (comparedWith_run_ok rfl).2 ⟨used, value, rfl, rfl, spell⟩
    | pattern negated matcher value =>
      rw [nextKind_of_words matcher.kind_isOpen spell]
      cases matcher <;> exact (comparedWith_run_ok rfl).2 ⟨used, value, rfl, rfl, spell⟩
    | between negated low high =>
      rw [nextKind_of_words rfl spell]
      exact between_run_ok.2 ⟨used, low, high, rfl, rfl, spell⟩
    | among negated operands =>
      rw [nextKind_of_words rfl spell]
      obtain ⟨found, ok, rfl⟩ := inClause_spelled.complete scope rest proper spell
      exact Reader.bind_pure_run_ok.2 ⟨_, ok, rfl⟩
    | present negated =>
      obtain ⟨token, rfl, isExist⟩ := List.map_eq_singleton_iff.1 spell
      have kind := (Token.word_fixed rfl).1 isExist
      simp only [List.cons_append, List.nil_append, nextKind_cons, kind]
      exact Reader.expect_bind_run_ok.2 ⟨token, rest, rfl, kind, Reader.pure_run_ok.2 ⟨rfl, rfl⟩⟩

/-- The first word of a test behind its negation tells that it is one. -/
theorem Test.core_head (found : Test) : ∃ kind words, found.core = .fixed kind :: words ∧
    ((Relation.ofKind? kind).isSome ∨ kind ∈ negatable) ∧ (found.negated → kind ∈ negatable) := by
  cases found with
  | relation op value =>
    exact ⟨op.kind, _, rfl, .inl (by rw [Relation.ofKind?_eq_some.2 rfl]; rfl), nofun⟩
  | pattern negated matcher value =>
    have mem : matcher.kind ∈ negatable := by cases matcher <;> simp [Matcher.kind, negatable]
    exact ⟨matcher.kind, _, rfl, .inr mem, fun _ => mem⟩
  | between negated low high => exact ⟨.between, _, rfl, by simp [negatable], by simp [negatable]⟩
  | among negated operands => exact ⟨.isIn, _, rfl, by simp [negatable], by simp [negatable]⟩
  | present negated => exact ⟨.exist, _, rfl, by simp [negatable], by simp [negatable]⟩

theorem test_spelled : test.Spelled Test.words Test.Proper id where
  sound {scope tokens found rest} h := by
    simp only [test, Reader.peek_bind_run_ok] at h
    split at h
    · obtain ⟨token, left, rfl, isNot, h⟩ := Reader.expect_bind_run_ok.1 h
      obtain ⟨⟨negated, proper⟩, used, rfl, spell⟩ := (testAfter_spelled true).sound h
      refine ⟨proper, token :: used, rfl, ?_⟩
      rw [List.map_cons, spell, (Token.word_fixed rfl).2 isNot, Test.words, negated]
      rfl
    · obtain ⟨⟨positive, proper⟩, used, rfl, spell⟩ := (testAfter_spelled false).sound h
      refine ⟨proper, used, rfl, ?_⟩
      rw [spell, Test.words, positive]
      rfl
  complete {found used} scope rest proper spell := by
    refine ⟨found, ?_, rfl⟩
    simp only [test, Reader.peek_bind_run_ok]
    cases negated : found.negated with
    | true =>
      rw [Test.words, negated] at spell
      obtain ⟨token, left, rfl, isNot, spell⟩ := List.map_eq_cons_iff.1 spell
      have kind := (Token.word_fixed rfl).1 isNot
      obtain ⟨same, ok, rfl⟩ := (testAfter_spelled true).complete scope rest ⟨negated, proper⟩ spell
      simp only [List.cons_append, nextKind_cons, kind]
      exact Reader.expect_bind_run_ok.2 ⟨token, _, rfl, kind, ok⟩
    | false =>
      rw [Test.words, negated] at spell
      obtain ⟨same, ok, rfl⟩ :=
        (testAfter_spelled false).complete scope rest ⟨negated, proper⟩ spell
      obtain ⟨kind, words, core, starts, -⟩ := Test.core_head same
      split
      · next isNot =>
        -- a test without negation starts with its operator, so no negation is met
        simp only [id_eq, core, negationWords] at spell
        obtain ⟨token, left, rfl, word, -⟩ := List.map_eq_cons_iff.1 spell
        have same : kind = .not := (congrArg Word.kind word).symm.trans isNot
        subst same
        simp [Relation.ofKind?, negatable] at starts
      · exact ok

theorem key_run_ok {scope : Scope} {tokens rest : List Token} {ref : KeyRef} :
    key.run scope tokens = (.ok ref, rest) ↔
      ∃ token, tokens = token :: rest ∧ token.kind = .key ∧ keyRef token = ref := by
  rw [key, Reader.take_run_ok]
  simp

theorem keyRef_word (isKey : token.kind = .key) : token.word = (keyRef token).word :=
  (Token.word_open rfl).2 ⟨isKey, rfl⟩

theorem parameter_spelled :
    parameter.Spelled Parameter.words Parameter.Proper Parameter.unplaced where
  sound {scope tokens found rest} h := by
    simp only [parameter, Reader.within_run, Reader.peek_bind_run_ok] at h
    split at h
    · obtain ⟨ref, ok, rfl⟩ := Reader.bind_pure_run_ok.1 h
      obtain ⟨token, rfl, isKey, rfl⟩ := key_run_ok.1 ok
      exact ⟨trivial, [token], rfl, by rw [List.map_singleton, keyRef_word isKey]; rfl⟩
    · obtain ⟨used, values, rfl, nonempty, rfl, spell⟩ :=
        (bracketed_run_ok rfl rfl (by decide)).1 h
      exact ⟨nonempty, used, rfl, spell⟩
    · next notKey _ =>
      split at h
      · obtain ⟨token, literal, rfl, word, rfl⟩ := madeOf_run_ok.1 h
        refine ⟨fun isKey => notKey ?_, [token], rfl, by rw [List.map_singleton, word]; rfl⟩
        rw [nextKind_cons, ← isKey, ← word, Token.word_kind]
      · exact absurd h Reader.expecting_run_ok
  complete {found used} scope rest proper spell := by
    simp only [parameter, Reader.within_run, Reader.peek_bind_run_ok]
    cases found with
    | key ref =>
      obtain ⟨token, rfl, word⟩ := List.map_eq_singleton_iff.1 spell
      obtain ⟨isKey, text⟩ := (Token.word_open rfl).1 word
      refine ⟨.key (keyRef token), ?_, by simp [Parameter.unplaced, KeyRef.unplaced, keyRef, text]⟩
      simp only [List.cons_append, List.nil_append, nextKind_cons, isKey]
      exact Reader.bind_pure_run_ok.2 ⟨_, key_run_ok.2 ⟨token, rfl, isKey, rfl⟩, rfl⟩
    | value literal =>
      obtain ⟨token, rfl, word⟩ := List.map_eq_singleton_iff.1 spell
      have kind : token.kind = literal.word.kind := congrArg Word.kind word
      refine ⟨.value literal, ?_, rfl⟩
      simp only [List.cons_append, List.nil_append, nextKind_cons, kind]
      cases literal with
      | key raw => exact absurd rfl proper
      | quoted raw => exact madeOf_run_ok.2 ⟨token, _, rfl, word, rfl⟩
      | number raw => exact madeOf_run_ok.2 ⟨token, _, rfl, word, rfl⟩
      | bool raw => exact madeOf_run_ok.2 ⟨token, _, rfl, word, rfl⟩
    | array values =>
      refine ⟨.array values, ?_, rfl⟩
      rw [nextKind_of_words rfl spell]
      exact (bracketed_run_ok rfl rfl (by decide)).2 ⟨used, values, rfl, proper, rfl, spell⟩

theorem parameters_spelled :
    parameters.Spelled
      (fun found =>
        .fixed .lparen :: commaWords (found.map Parameter.words) ++ [Word.fixed .rparen])
      (fun found => found ≠ [] ∧ ∀ parameter ∈ found, parameter.Proper)
      (List.map Parameter.unplaced) where
  sound {scope tokens found rest} h := by
    obtain ⟨token, left, rfl, opened, h⟩ := Reader.expect_bind_run_ok.1 h
    obtain ⟨proper, used, rfl, spell⟩ :=
      (Reader.items_spelled parameter_spelled rfl (by decide)).sound h
    refine ⟨proper, token :: used, rfl, ?_⟩
    rw [List.map_cons, spell, (Token.word_fixed rfl).2 opened, List.cons_append]
  complete {found used} scope rest proper spell := by
    obtain ⟨token, left, rfl, opened, spell⟩ := List.map_eq_cons_iff.1 spell
    obtain ⟨same, ok, view⟩ :=
      (Reader.items_spelled parameter_spelled rfl (by decide)).complete scope rest proper spell
    have open' := (Token.word_fixed rfl).1 opened
    exact ⟨same, Reader.expect_bind_run_ok.2 ⟨token, _, rfl, open', ok⟩, view⟩

end TelemetryQuery.Filter
