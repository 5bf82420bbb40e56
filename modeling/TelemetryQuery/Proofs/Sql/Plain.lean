import TelemetryQuery.Proofs.Sql.Precedence
/- Expressions show no question mark that is not in the text they are read from. -/
namespace TelemetryQuery.Sql

variable {afterWord : Bool} {left : Expr}

section Shown

variable {c quote : Char}

theorem mem_escapeQuotes {escaped : Bool} {text : List Char} :
    c ∈ escapeQuotes quote escaped text ↔ c ∈ text := by
  fun_induction escapeQuotes quote escaped text with
  | case1 => rfl
  | case2 _ ih => simp [ih]
  | case3 _ _ _ ih => simp [ih]
  | case4 _ _ _ _ _ ih => simp [ih]
  | case5 => simp
  | case6 _ _ _ _ ih => simp [ih]

@[simp]
theorem mem_quoteText {text : String} :
    c ∈ (quoteText quote text).toList ↔ c = quote ∨ c ∈ text.toList := by
  simp [quoteText, mem_escapeQuotes, or_comm]

theorem mem_joinWith {separator : String} {parts : List String} (other : c ∉ separator.toList) :
    c ∈ (Text.joinWith separator parts).toList ↔ ∃ part ∈ parts, c ∈ part.toList := by
  fun_induction Text.joinWith separator parts with
  | case1 => simp
  | case2 part => simp
  | case3 part rest _ ih => simp [ih, other]

end Shown

theorem Ident.value_plain {ident : Ident} (plain : '?' ∉ ident.text.toList) :
    '?' ∉ ident.value.toList := by
  cases ident with
  | mk value quote =>
    cases quote with
    | none => exact plain
    | some quote => exact fun mem => plain (mem_quoteText.2 (.inr mem))

@[simp]
theorem nameText_plain {parts : List Ident} :
    '?' ∉ (nameText parts).toList ↔ ∀ part ∈ parts, '?' ∉ part.text.toList := by
  simp [nameText, mem_joinWith]

theorem typeText_plain {name : String} (plain : '?' ∉ name.toList) :
    '?' ∉ (typeText name).toList := by
  have capitals : ∀ type ∈ capitalTypes, '?' ∉ type.toList := by simp [capitalTypes]
  have mixed : ∀ type ∈ mixedTypes, '?' ∉ type.toList := by simp [mixedTypes]
  unfold typeText
  split
  · next known => exact capitals _ (List.contains_iff_mem.1 known)
  · cases found : mixedTypes.find? (Text.sameIgnoringCase name) with
    | none => exact plain
    | some type => exact mixed type (List.mem_of_find?_eq_some found)

theorem UnaryOp.text_plain (op : UnaryOp) : '?' ∉ op.text.toList := by
  cases op <;> decide

theorem BinaryOp.text_plain (op : BinaryOp) : '?' ∉ op.text.toList := by
  cases op <;> decide

namespace Expr

mutual

def Plain : Expr → Prop
  | .name parts => ∀ part ∈ parts, '?' ∉ part.text.toList
  | .number digits => '?' ∉ digits.toList
  | .text value => '?' ∉ value.toList
  | .phrase words => '?' ∉ words.toList
  | .all parts => ∀ part ∈ parts, '?' ∉ part.text.toList
  | .unary _ inner => inner.Plain
  | .binary left _ right => left.Plain ∧ right.Plain
  | .nested inner => inner.Plain
  | .labelled label value => '?' ∉ label.text.toList ∧ value.Plain
  | .call function parameters mode arguments =>
    (∀ part ∈ function, '?' ∉ part.text.toList) ∧ '?' ∉ parameters.toList ∧ '?' ∉ mode.toList ∧
      PlainAll arguments

def PlainAll : List Expr → Prop
  | [] => True
  | expr :: rest => expr.Plain ∧ PlainAll rest

end

@[simp]
theorem plain_name {parts : List Ident} :
    (name parts).Plain ↔ ∀ part ∈ parts, '?' ∉ part.text.toList :=
  .rfl

@[simp]
theorem plain_phrase {words : String} : (phrase words).Plain ↔ '?' ∉ words.toList :=
  .rfl

@[simp]
theorem plain_unary {op : UnaryOp} {inner : Expr} : (unary op inner).Plain ↔ inner.Plain :=
  .rfl

@[simp]
theorem plain_binary {right : Expr} {op : BinaryOp} :
    (binary left op right).Plain ↔ left.Plain ∧ right.Plain :=
  .rfl

@[simp]
theorem plain_nested {inner : Expr} : (nested inner).Plain ↔ inner.Plain :=
  .rfl

@[simp]
theorem plain_labelled {label : Ident} {value : Expr} :
    (labelled label value).Plain ↔ '?' ∉ label.text.toList ∧ value.Plain :=
  .rfl

theorem plainAll_iff {exprs : List Expr} : PlainAll exprs ↔ ∀ expr ∈ exprs, expr.Plain := by
  induction exprs with
  | nil => exact ⟨fun _ => nofun, fun _ => trivial⟩
  | cons expr rest ih => exact (and_congr_right fun _ => ih).trans List.forall_mem_cons.symm

theorem plain_call {function : List Ident} {parameters mode : String} {arguments : List Expr} :
    (call function parameters mode arguments).Plain ↔
      (∀ part ∈ function, '?' ∉ part.text.toList) ∧ '?' ∉ parameters.toList ∧
        '?' ∉ mode.toList ∧ ∀ argument ∈ arguments, argument.Plain := by
  rw [← plainAll_iff]
  exact .rfl

mutual

theorem Plain.shown : ∀ {expr : Expr}, expr.Plain → '?' ∉ expr.render.toList
  | .name parts, plain => nameText_plain.2 plain
  | .number digits, plain => plain
  | .text value, plain => fun mem => (mem_quoteText.1 mem).elim (by decide) plain
  | .phrase words, plain => plain
  | .all parts, plain => by
    have each : ∀ part ∈ parts, '?' ∉ part.text.toList := plain
    simpa [render, String.toList_join] using each
  | .unary op inner, plain => by
    have plainInner := Plain.shown (plain_unary.1 plain)
    simp [render, op.text_plain, plainInner]
  | .binary left op right, plain => by
    have plainLeft := Plain.shown (plain_binary.1 plain).1
    have plainRight := Plain.shown (plain_binary.1 plain).2
    simp [render, op.text_plain, plainLeft, plainRight]
  | .nested inner, plain => by
    have plainInner := Plain.shown (plain_nested.1 plain)
    simp [render, plainInner]
  | .labelled label value, plain => by
    have plainValue := Plain.shown (plain_labelled.1 plain).2
    simp [render, (plain_labelled.1 plain).1, plainValue]
  | .call function parameters mode arguments, plain => by
    obtain ⟨plainFunction, plainParameters, plainMode, plainArguments⟩ := plain
    have listed := PlainAll.shown plainArguments
    simpa [render, mem_joinWith, plainParameters, plainMode] using ⟨plainFunction, listed⟩

theorem PlainAll.shown : ∀ {exprs : List Expr}, PlainAll exprs →
    ∀ text ∈ renderAll exprs, '?' ∉ text.toList
  | [], _ => nofun
  | _ :: _, plain => List.forall_mem_cons.2 ⟨Plain.shown plain.1, PlainAll.shown plain.2⟩

end

theorem listing_plain {exprs : List Expr} (plain : ∀ expr ∈ exprs, expr.Plain) :
    '?' ∉ (listing exprs).toList := by
  rw [listing, mem_joinWith (by decide)]
  rintro ⟨text, mem, shown⟩
  exact PlainAll.shown (plainAll_iff.2 plain) text mem shown

end Expr

/-- What is read has a property, and so has what is left. -/
def Reads {α β : Type} (P : α → Prop) (Q : β → Prop) (result : Option (α × β)) : Prop :=
  ∀ a rest, result = some (a, rest) → P a ∧ Q rest

namespace Reads

variable {α β γ δ : Type} {P : α → Prop} {Q : β → Prop} {P' : γ → Prop} {Q' : δ → Prop}

theorem none : Reads P Q none :=
  fun _ _ read => nomatch read

theorem some {a : α} {rest : β} (holds : P a) (left : Q rest) : Reads P Q (some (a, rest)) := by
  intro _ _ read
  cases read
  exact ⟨holds, left⟩

theorem after {x : Option α} {f : α → Option (γ × δ)}
    (next : ∀ a, x = .some a → Reads P' Q' (f a)) : Reads P' Q' (x >>= f) := by
  intro c rest read
  obtain ⟨a, found, made⟩ := Option.bind_eq_some_iff.1 read
  exact next a found c rest made

theorem bind {x : Option (α × β)} {f : α × β → Option (γ × δ)} (reads : Reads P Q x)
    (next : ∀ a rest, P a → Q rest → Reads P' Q' (f (a, rest))) : Reads P' Q' (x >>= f) := by
  refine after fun (a, rest) found => ?_
  obtain ⟨holds, left⟩ := reads a rest found
  exact next a rest holds left

theorem map {x : Option (α × β)} {f : α × β → γ × δ} (reads : Reads P Q x)
    (next : ∀ a rest, P a → Q rest → P' (f (a, rest)).1 ∧ Q' (f (a, rest)).2) :
    Reads P' Q' (x.map f) := by
  intro c last read
  obtain ⟨⟨a, rest⟩, found, made⟩ := Option.map_eq_some_iff.1 read
  obtain ⟨holds, left⟩ := reads a rest found
  have both := next a rest holds left
  rwa [made] at both

end Reads

/-- A token that shows no question mark. Symbols are shown as operators are. -/
def Token.Plain : Token → Prop
  | .word ident => '?' ∉ ident.text.toList
  | .number digits => '?' ∉ digits.toList
  | .text value => '?' ∉ value.toList
  | .written words => '?' ∉ words.toList
  | .symbol _ => True

section Lexing

variable {text : List Char}

theorem escapedChar_ne {c : Char} (other : '?' ≠ c) : '?' ≠ escapedChar c := by
  unfold escapedChar
  split
  case h_9 => exact other
  all_goals decide

theorem quotedText?_plain (plain : '?' ∉ text) : Reads ('?' ∉ ·) ('?' ∉ ·) (quotedText? text) := by
  fun_induction quotedText? text with
  | case1 => exact .none
  | case2 text ih => exact (ih (by simp_all)).map fun _ _ plainValue left => by simp_all
  | case3 text _ => exact .some List.not_mem_nil (by simp_all)
  | case4 c text ih =>
    have other : '?' ≠ escapedChar c := escapedChar_ne (by simp_all)
    exact (ih (by simp_all)).map fun _ _ plainValue left => by simp_all
  | case5 => exact .none
  | case6 c text _ _ _ _ ih => exact (ih (by simp_all)).map fun _ _ plainValue left => by simp_all

theorem quotedName?_plain {quote : Char} (plain : '?' ∉ text) :
    Reads ('?' ∉ ·) ('?' ∉ ·) (quotedName? quote text) := by
  fun_induction quotedName? quote text with
  | case1 => exact .none
  | case2 more ih => exact (ih (by simp_all)).map fun _ _ plainValue left => by simp_all
  | case3 d more _ => exact .some List.not_mem_nil (by simp_all)
  | case4 => exact .some List.not_mem_nil List.not_mem_nil
  | case5 c text _ ih => exact (ih (by simp_all)).map fun _ _ plainValue left => by simp_all

theorem digits_plain {isDigit : Char → Bool} (plain : '?' ∉ text) : '?' ∉ digits isDigit text := by
  fun_induction digits isDigit text with
  | case1 c text _ ih => simp_all
  | case2 => exact List.not_mem_nil
  | case3 c text _ _ ih => simp_all
  | case4 => exact List.not_mem_nil
  | case5 => exact List.not_mem_nil

theorem drop_plain (plain : '?' ∉ text) (n : Nat) : '?' ∉ text.drop n :=
  fun mem => plain (List.mem_of_mem_drop mem)

theorem takeWhile_plain (plain : '?' ∉ text) (p : Char → Bool) : '?' ∉ text.takeWhile p :=
  fun mem => plain ((List.takeWhile_sublist p).subset mem)

theorem exponentPart_plain (plain : '?' ∉ text) : '?' ∉ exponentPart text := by
  unfold exponentPart
  split
  · next e rest =>
    have other := List.ne_of_not_mem_cons plain
    have plainRest := List.not_mem_of_not_mem_cons plain
    split
    · extract_lets sign power
      have plainSign : '?' ∉ sign := by
        unfold sign
        split
        · split
          · exact fun mem => plainRest (List.mem_cons.2 (.inl (List.mem_singleton.1 mem)))
          · exact List.not_mem_nil
        · exact List.not_mem_nil
      have plainPower : '?' ∉ power := takeWhile_plain (drop_plain plainRest _) _
      split
      · exact List.not_mem_nil
      · simp [other, plainSign, plainPower]
    · exact List.not_mem_nil
  · exact plain

theorem numberPart_plain (plain : '?' ∉ text) : '?' ∉ numberPart text := by
  unfold numberPart
  extract_lets whole rest fraction mantissa scaled
  have plainWhole : '?' ∉ whole := digits_plain plain
  have plainFraction : '?' ∉ fraction := by
    have plainTail : '?' ∉ rest.tail := fun mem => drop_plain plain _ (List.mem_of_mem_tail mem)
    unfold fraction
    split
    · exact List.not_mem_cons_of_ne_of_not_mem (by decide) (digits_plain plainTail)
    · exact List.not_mem_nil
  have plainScaled : '?' ∉ scaled := by
    simp [scaled, mantissa, plainWhole, plainFraction, exponentPart_plain (drop_plain plain _)]
  split
  · exact List.not_mem_nil
  · refine List.not_mem_append plainScaled ?_
    split <;> simp

theorem numberToken_plain (plain : '?' ∉ text) :
    (numberToken text).1.Plain ∧ '?' ∉ (numberToken text).2 := by
  unfold numberToken
  split
  · next rest =>
    have plainRest : '?' ∉ rest := by simp_all
    exact ⟨by simp [Token.Plain, digits_plain plainRest], drop_plain plainRest _⟩
  · dsimp only
    split
    · exact ⟨trivial, fun mem => plain (List.mem_of_mem_tail mem)⟩
    · exact ⟨by simp [Token.Plain, numberPart_plain plain], drop_plain plain _⟩

theorem markedText?_plain {mark : String} (plainMark : '?' ∉ mark.toList) (plain : '?' ∉ text) :
    Reads Token.Plain ('?' ∉ ·) (markedText? mark text) :=
  (quotedText?_plain plain).map fun _ _ plainValue left => by
    simp [Token.Plain, plainMark, plainValue, left]

theorem placeholder?_plain (plain : '?' ∉ text) :
    Reads Token.Plain ('?' ∉ ·) (placeholder? text) := by
  unfold placeholder?
  dsimp only
  split
  · exact .none
  · exact .some (by simp [Token.Plain, takeWhile_plain plain]) (drop_plain plain _)

theorem firstToken?_plain (plain : '?' ∉ text) :
    Reads Token.Plain ('?' ∉ ·) (firstToken? afterWord text) := by
  unfold firstToken?
  split
  · exact .none
  · refine (quotedText?_plain (by simp_all)).map fun _ _ plainValue left => ?_
    simp [Token.Plain, plainValue, left]
  · exact markedText?_plain (by decide) (by simp_all)
  · exact markedText?_plain (by decide) (by simp_all)
  · exact markedText?_plain (by decide) (by simp_all)
  · exact markedText?_plain (by decide) (by simp_all)
  · split
    · exact .some trivial (by simp_all)
    · exact .none
  · exact placeholder?_plain (by simp_all)
  -- The one token that is a question mark itself.
  · simp at plain
  · next c rest _ _ _ _ _ _ _ _ =>
    have other := List.ne_of_not_mem_cons plain
    have plainRest := List.not_mem_of_not_mem_cons plain
    split
    · refine (quotedName?_plain plainRest).map fun _ _ plainValue left => ?_
      simp [Token.Plain, Ident.text, other, plainValue, left]
    · split
      · refine .some ?_ fun mem => plainRest ((List.dropWhile_sublist _).subset mem)
        simp [Token.Plain, Ident.text, other, takeWhile_plain plainRest]
      · split
        · exact .some (numberToken_plain plain).1 (numberToken_plain plain).2
        · exact .some trivial (drop_plain plain _)

theorem afterLine_plain (plain : '?' ∉ text) : '?' ∉ afterLine text := by
  fun_induction afterLine text with
  | case1 => exact plain
  | case2 => simp_all
  | case3 _ _ _ ih => simp_all

theorem afterComment?_plain {depth : Nat} (plain : '?' ∉ text) :
    ∀ rest ∈ afterComment? depth text, '?' ∉ rest := by
  fun_induction afterComment? depth text with
  | case1 => simp
  | case2 _ _ ih => exact ih (by simp_all)
  | case3 => simp_all
  | case4 _ _ _ ih => exact ih (by simp_all)
  | case5 _ _ _ _ _ ih => exact ih (by simp_all)

theorem step?_plain (plain : '?' ∉ text) :
    Reads (fun token => ∀ found ∈ token, found.Plain) ('?' ∉ ·) (step? afterWord text) := by
  unfold step?
  split
  · exact .some (by simp) (afterLine_plain (by simp_all))
  · intro _ _ read
    obtain ⟨left, found, made⟩ := Option.map_eq_some_iff.1 read
    cases made
    exact ⟨by simp, afterComment?_plain (by simp_all) _ found⟩
  · split
    · exact .some (by simp) (by simp_all)
    · exact (firstToken?_plain plain).map fun _ _ plainToken left => ⟨by simpa, left⟩
  · exact .none

theorem tokens?_plain {tokens : List Token} (plain : '?' ∉ text)
    (lexed : tokens? afterWord text = some tokens) : ∀ token ∈ tokens, token.Plain := by
  fun_induction tokens? afterWord text generalizing tokens with
  | case1 =>
    cases lexed
    simp
  | case2 afterWord text _ ih =>
    obtain ⟨⟨token, left⟩, found, made⟩ := Option.bind_eq_some_iff.1 lexed
    obtain ⟨plainToken, plainLeft⟩ := step?_plain plain token left found
    dsimp only at made
    split at made
    · next shorter =>
      obtain ⟨more, later, made⟩ := Option.bind_eq_some_iff.1 made
      cases made
      have plainMore := ih token left shorter plainLeft later
      simpa [or_imp, forall_and] using ⟨plainToken, plainMore⟩
    · cases made

end Lexing

def Clean (tokens : List Token) : Prop :=
  ∀ token ∈ tokens, token.Plain

section Clean

variable {tokens rest : List Token} {token : Token}

theorem clean_cons : Clean (token :: rest) ↔ token.Plain ∧ Clean rest :=
  List.forall_mem_cons

theorem Clean.tail (clean : Clean tokens) : Clean tokens.tail :=
  fun token mem => clean token (List.mem_of_mem_tail mem)

theorem Clean.skipSymbol (clean : Clean tokens) {symbol : String}
    (skipped : skipSymbol? symbol tokens = some rest) : Clean rest := by
  unfold skipSymbol? at skipped
  split at skipped
  · split at skipped <;> cases skipped
    exact (clean_cons.1 clean).2
  · cases skipped

theorem Clean.skipKeywords (clean : Clean tokens) {keywords : List String}
    (skipped : skipKeywords? keywords tokens = some rest) : Clean rest := by
  induction keywords generalizing tokens with
  | nil =>
    cases skipped
    exact clean
  | cons keyword more ih =>
    rw [skipKeywords?] at skipped
    split at skipped
    · exact ih clean.tail skipped
    · cases skipped

theorem Token.Plain.ident (plain : token.Plain) {ident : Ident}
    (named : identOf? token = some ident) : '?' ∉ ident.text.toList := by
  cases token with
  | word _ =>
    cases named
    exact plain
  | text value =>
    cases named
    exact fun mem => (mem_quoteText.1 mem).elim (by decide) plain
  | _ => cases named

end Clean

theorem listOf_clean {α : Type} {P : α → Prop} {item : List Token → Option (α × List Token)}
    (each : ∀ tokens, Clean tokens → Reads P Clean (item tokens)) {tokens : List Token}
    (clean : Clean tokens) : Reads (∀ a ∈ ·, P a) Clean (listOf item tokens) := by
  fun_induction listOf item tokens with
  | case1 tokens ih =>
    refine (each tokens clean).bind fun first rest holds left => ?_
    dsimp only
    split
    · exact .some (by simpa) left
    · next more skipped =>
      split
      · next shorter =>
        refine (ih more shorter (left.skipSymbol skipped)).bind fun others _ holdOthers left => ?_
        exact .some (List.forall_mem_cons.2 ⟨holds, holdOthers⟩) left
      · exact .none

/-- A reader of operands that shows no question mark which is not in the tokens. -/
def Operand.Plain (operand : Operand) : Prop :=
  ∀ level tokens, Clean tokens → Reads Expr.Plain Clean (operand level tokens)

section Reading

variable {operand : Operand} (plain : operand.Plain) {tokens : List Token} (clean : Clean tokens)

include plain clean

theorem closedList_plain (closing : String) :
    Reads (∀ expr ∈ ·, expr.Plain) Clean (closedList operand closing tokens) :=
  (listOf_clean (plain 0) clean).bind fun _ _ items left =>
    .after fun _ skipped => .some items (left.skipSymbol skipped)

omit plain in
theorem starOf_plain {parts found : List Ident} {rest : List Token}
    (plainParts : ∀ part ∈ parts, '?' ∉ part.text.toList)
    (read : starOf parts tokens = some (some (found, rest))) :
    (∀ part ∈ found, '?' ∉ part.text.toList) ∧ Clean rest := by
  fun_induction starOf parts tokens with
  | case1 parts rest =>
    cases read
    exact ⟨plainParts, fun token mem => clean token (by simp [mem])⟩
  | case2 parts token rest _ ih =>
    obtain ⟨ident, named, read⟩ := Option.bind_eq_some_iff.1 read
    obtain ⟨-, plainToken, cleanRest⟩ := (clean_cons.1 clean).imp_right clean_cons.1
    refine ih ident cleanRest ?_ read
    simpa [or_imp, forall_and] using ⟨plainParts, plainToken.ident named⟩
  | case3 => cases read
  | case4 => cases read

theorem orStar_plain : Reads Expr.Plain Clean (orStar operand tokens) := by
  unfold orStar
  split
  · exact .some (List.forall_mem_nil _) (clean_cons.1 clean).2
  · next token rest _ =>
    obtain ⟨plainToken, cleanRest⟩ := clean_cons.1 clean
    split
    · next ident named =>
      have own : ∀ part ∈ [ident], '?' ∉ part.text.toList := by
        simpa using plainToken.ident named
      refine .after fun found read => ?_
      split
      · next parts left =>
        obtain ⟨plainParts, left⟩ := starOf_plain cleanRest own read
        exact .some plainParts left
      · exact plain 0 _ clean
    · exact plain 0 _ clean
  · exact .none

theorem argument_plain : Reads Expr.Plain Clean (argument operand tokens) := by
  unfold argument
  split
  · next token rest =>
    obtain ⟨plainToken, -, cleanRest⟩ := (clean_cons.1 clean).imp_right clean_cons.1
    refine .after fun label named => (orStar_plain plain cleanRest).bind fun _ _ value left => ?_
    exact .some (Expr.plain_labelled.2 ⟨plainToken.ident named, value⟩) left
  · exact orStar_plain plain clean

theorem arguments_plain :
    Reads ('?' ∉ String.toList ·) (fun found => (∀ item ∈ found.1, item.Plain) ∧
      Clean found.2) (arguments operand tokens) := by
  unfold arguments
  split
  · next skipped => exact .some (by simp) ⟨by simp, clean.skipSymbol skipped⟩
  · split
    next mode rest same =>
    have opening : '?' ∉ mode.toList ∧ Clean rest := by
      split at same <;> cases same
      · exact ⟨by decide, clean.tail⟩
      · exact ⟨by decide, clean.tail⟩
      · exact ⟨by decide, clean⟩
    refine (listOf_clean (fun _ => argument_plain plain) opening.2).bind fun _ _ items left => ?_
    exact .after fun _ skipped => .some opening.1 ⟨items, left.skipSymbol skipped⟩

theorem call_plain {name : List Ident} (plainName : ∀ part ∈ name, '?' ∉ part.text.toList) :
    Reads Expr.Plain Clean (call operand name tokens) := by
  refine (arguments_plain plain clean).bind
    fun mode ⟨items, rest⟩ plainMode ⟨plainItems, left⟩ => ?_
  dsimp only
  split
  · exact .some (Expr.plain_call.2 ⟨plainName, by simp, plainMode, plainItems⟩) left
  · next skipped =>
    have plainParameters : '?' ∉ ("(" ++ mode ++ Expr.listing items ++ ")").toList := by
      simp [plainMode, Expr.listing_plain plainItems]
    refine (arguments_plain plain (left.skipSymbol skipped)).bind
      fun mode ⟨items, rest⟩ plainMode ⟨plainItems, left⟩ => .some ?_ left
    exact Expr.plain_call.2 ⟨plainName, plainParameters, plainMode, plainItems⟩

theorem branches_plain :
    Reads ('?' ∉ String.toList ·) Clean (branches operand tokens) := by
  fun_induction branches operand tokens with
  | case1 tokens ih =>
    refine (plain 0 tokens clean).bind fun condition rest plainCondition left => ?_
    refine .after fun rest skipped => ?_
    refine (plain 0 rest (left.skipKeywords skipped)).bind fun result rest plainResult left => ?_
    dsimp only
    have plainBranch :
        '?' ∉ (" WHEN " ++ condition.render ++ " THEN " ++ result.render).toList := by
      simp [plainCondition.shown, plainResult.shown]
    split
    · exact .some plainBranch left
    · next more skipped =>
      split
      · next shorter =>
        refine (ih more shorter (left.skipKeywords skipped)).bind fun _ _ plainOthers left => ?_
        exact .some (by simp [plainCondition.shown, plainResult.shown, plainOthers]) left
      · exact .none

theorem caseSubject_plain :
    Reads ('?' ∉ String.toList ·) Clean (caseSubject operand tokens) := by
  unfold caseSubject
  split
  · next skipped => exact .some (by simp) (clean.skipKeywords skipped)
  · refine (plain 0 tokens clean).bind fun subject rest plainSubject left => ?_
    refine .after fun _ skipped => .some ?_ (left.skipKeywords skipped)
    simp [plainSubject.shown]

theorem caseElse_plain :
    Reads ('?' ∉ String.toList ·) Clean (caseElse operand tokens) := by
  unfold caseElse
  split
  · exact .some (by simp) clean
  · next skipped =>
    refine (plain 0 _ (clean.skipKeywords skipped)).map fun result rest plainResult left => ?_
    exact ⟨by simp [plainResult.shown], left⟩

theorem caseExpr_plain : Reads Expr.Plain Clean (caseExpr operand tokens) := by
  refine (caseSubject_plain plain clean).bind fun subject _ plainSubject left => ?_
  refine (branches_plain plain left).bind fun listed _ plainListed left => ?_
  refine (caseElse_plain plain left).bind fun otherwise _ plainOtherwise left => ?_
  refine .after fun _ skipped => .some ?_ (left.skipKeywords skipped)
  simp [plainSubject, plainListed, plainOtherwise]

theorem rounding_plain {name : String} (plainName : '?' ∉ name.toList) :
    Reads Expr.Plain Clean (rounding operand name tokens) := by
  refine .after fun rest skipped => ?_
  refine (plain 0 rest (clean.skipSymbol skipped)).bind fun value rest plainValue left => ?_
  dsimp only
  split
  · next scale rest =>
    obtain ⟨-, plainScale, left⟩ := (clean_cons.1 left).imp_right clean_cons.1
    refine .after fun _ skipped => .some ?_ (left.skipSymbol skipped)
    simpa [plainName, plainValue.shown, Token.Plain] using plainScale
  · refine .after fun _ skipped => .some ?_ (left.skipSymbol skipped)
    simp [plainName, plainValue.shown]

theorem slicePart_plain {keyword : String} (plainKeyword : '?' ∉ keyword.toList) :
    Reads ('?' ∉ String.toList ·) Clean (slicePart operand keyword tokens) := by
  unfold slicePart
  split
  · next skipped =>
    refine (plain 0 _ (clean.skipKeywords skipped)).bind fun value _ plainValue left => ?_
    exact .some (by simp [plainKeyword, plainValue.shown]) left
  · split
    · next skipped =>
      refine (plain 0 _ (clean.skipSymbol skipped)).bind fun value _ plainValue left => ?_
      exact .some (by simp [plainValue.shown]) left
    · exact .some (by simp) clean

theorem slice_plain {name : String} (plainName : '?' ∉ name.toList) :
    Reads Expr.Plain Clean (slice operand name tokens) := by
  refine .after fun rest skipped => ?_
  refine (plain 0 rest (clean.skipSymbol skipped)).bind fun value _ plainValue left => ?_
  refine (slicePart_plain plain left (by decide)).bind fun start _ plainStart left => ?_
  refine (slicePart_plain plain left (by decide)).bind fun length _ plainLength left => ?_
  refine .after fun _ skipped => .some ?_ (left.skipSymbol skipped)
  simp [plainName, plainValue.shown, plainStart, plainLength]

theorem trimmed_plain : Reads Expr.Plain Clean (trimmed operand tokens) := by
  refine .after fun rest skipped => ?_
  have cleanRest := clean.skipSymbol skipped
  split
  next side rest same =>
  have opening : '?' ∉ side.toList ∧ Clean rest := by
    split at same <;> cases same
    · exact ⟨by decide, cleanRest.tail⟩
    · exact ⟨by decide, cleanRest.tail⟩
    · exact ⟨by decide, cleanRest.tail⟩
    · exact ⟨by decide, cleanRest⟩
  refine (plain 0 rest opening.2).bind fun value _ plainValue left => ?_
  dsimp only
  split
  · next skipped =>
    refine (plain 0 _ (left.skipKeywords skipped)).bind fun subject _ plainSubject left => ?_
    refine .after fun _ skipped => .some ?_ (left.skipSymbol skipped)
    simp [opening.1, plainValue.shown, plainSubject.shown]
  · refine .after fun _ skipped => .some ?_ (left.skipSymbol skipped)
    simp [opening.1, plainValue.shown]

theorem cast_plain : Reads Expr.Plain Clean (cast operand tokens) := by
  refine .after fun rest skipped => ?_
  refine (plain 0 rest (clean.skipSymbol skipped)).bind fun value _ plainValue left => ?_
  refine .after fun rest skipped => ?_
  have left := left.skipKeywords skipped
  split
  · next type rest =>
    obtain ⟨plainType, left⟩ := clean_cons.1 left
    refine .after fun _ skipped => .some ?_ (left.skipSymbol skipped)
    simp [plainValue.shown, typeText_plain plainType]
  · exact .none

theorem keywordExpr_plain {keyword : String} {result : Option (Expr × List Token)}
    (introduced : keywordExpr operand keyword tokens = some result) :
    Reads Expr.Plain Clean result := by
  unfold keywordExpr at introduced
  split at introduced <;> cases introduced
  · exact .some (by simp) clean
  · exact .some (by simp) clean
  · exact .some (by simp) clean
  · split
    · exact .none
    · exact (plain 15 tokens clean).map fun inner _ plainInner left =>
        ⟨Expr.plain_unary.2 plainInner, left⟩
  · exact caseExpr_plain plain clean
  · exact rounding_plain plain clean (by decide)
  · exact rounding_plain plain clean (by decide)
  · exact slice_plain plain clean (by decide)
  · exact slice_plain plain clean (by decide)
  · exact trimmed_plain plain clean
  · exact cast_plain plain clean
  · exact .none
  · exact .none

theorem named_plain {ident : Ident} (plainIdent : '?' ∉ ident.text.toList) :
    Reads Expr.Plain Clean (named operand ident tokens) := by
  unfold named
  split
  · exact call_plain plain (clean_cons.1 clean).2 (by simpa)
  · refine (plain 0 _ (clean_cons.1 clean).2).bind fun body _ plainBody left => ?_
    exact .some (by simp [plainIdent, plainBody.shown]) left
  · split
    · exact .some (by simpa) clean
    · exact .some (by simpa) clean

theorem wordExpr_plain {ident : Ident} (plainIdent : '?' ∉ ident.text.toList) :
    Reads Expr.Plain Clean (wordExpr operand ident tokens) := by
  unfold wordExpr
  split
  · exact named_plain plain clean plainIdent
  · split
    · exact named_plain plain clean plainIdent
    · next introduced => exact keywordExpr_plain plain clean introduced
    · split
      · exact .none
      · exact named_plain plain clean plainIdent

theorem lambda?_plain : Reads Expr.Plain Clean (lambda? operand tokens) := by
  unfold lambda?
  extract_lets ident
  have each (tokens : List Token) (clean : Clean tokens) :
      Reads (fun ident => '?' ∉ ident.text.toList) Clean (ident tokens) := by
    refine .after fun found named => .some ?_ clean.tail
    obtain ⟨token, first, named⟩ := Option.bind_eq_some_iff.1 named
    exact (clean token (List.mem_of_head? first)).ident named
  refine (listOf_clean each clean).bind fun parameters _ plainParameters left => ?_
  refine .after fun _ skipped => .after fun rest arrow => ?_
  have left := (left.skipSymbol skipped).skipSymbol arrow
  refine (plain 0 rest left).bind fun body _ plainBody left => .some ?_ left
  simpa [mem_joinWith, plainBody.shown] using plainParameters

theorem bracketed_plain : Reads Expr.Plain Clean (bracketed operand tokens) := by
  unfold bracketed
  split
  · exact .none
  · split
    · next found =>
      rw [← found]
      exact lambda?_plain plain clean
    · refine (closedList_plain plain clean _).bind fun items _ plainItems left => ?_
      dsimp only
      split
      · exact .some (by simpa using plainItems) left
      · exact .some (by simp [Expr.listing_plain plainItems]) left

theorem primary_plain : Reads Expr.Plain Clean (primary operand tokens) := by
  have signed (op : UnaryOp) {rest : List Token} (clean : Clean rest) :
      Reads Expr.Plain Clean
        ((operand 40 rest).map fun read => (.unary op read.1, read.2)) :=
    (plain 40 rest clean).map fun _ _ plainInner left => ⟨Expr.plain_unary.2 plainInner, left⟩
  unfold primary
  split
  · exact wordExpr_plain plain (clean_cons.1 clean).2 (clean_cons.1 clean).1
  · exact .some (clean_cons.1 clean).1 (clean_cons.1 clean).2
  · exact .some (clean_cons.1 clean).1 (clean_cons.1 clean).2
  · exact .some (clean_cons.1 clean).1 (clean_cons.1 clean).2
  · exact signed .minus (clean_cons.1 clean).2
  · exact signed .plus (clean_cons.1 clean).2
  · exact bracketed_plain plain (clean_cons.1 clean).2
  · exact .some (by simp) (clean_cons.1 (clean_cons.1 clean).2).2
  · refine (closedList_plain plain (clean_cons.1 clean).2 _).bind fun items _ plainItems left => ?_
    exact .some (by simp [Expr.listing_plain plainItems]) left
  · exact .none

omit plain clean in
theorem accessPart_plain {root part : Expr} (plainRoot : root.Plain) (plainPart : part.Plain) :
    (accessPart root part).Plain := by
  unfold accessPart
  split
  · rw [Expr.plain_name] at plainRoot plainPart ⊢
    exact List.forall_mem_append.2 ⟨plainRoot, plainPart⟩
  · rw [Expr.plain_name] at plainRoot
    rw [Expr.plain_call] at plainPart ⊢
    exact ⟨List.forall_mem_append.2 ⟨plainRoot, plainPart.1⟩, plainPart.2⟩
  · simp [plainRoot.shown, plainPart.shown]

theorem afterDot_plain : Reads Expr.Plain Clean (afterDot operand tokens) := by
  unfold afterDot
  split
  · have plainValue := (clean_cons.1 clean).1
    refine .some (Expr.plain_name.2 ?_) (clean_cons.1 clean).2
    simpa [Ident.text, Token.Plain] using plainValue
  · exact plain 100 _ clean

theorem accesses_plain {root : Expr} (plainRoot : root.Plain) :
    Reads Expr.Plain Clean (accesses operand root tokens) := by
  fun_induction accesses operand root tokens with
  | case1 => exact .some plainRoot clean
  | case2 root rest _ ih =>
    refine (afterDot_plain plain (clean_cons.1 clean).2).bind
      fun part left plainPart cleanLeft => ?_
    dsimp only
    split
    · next shorter => exact ih part left shorter cleanLeft (accessPart_plain plainRoot plainPart)
    · exact .none
  | case3 root rest ih =>
    refine (plain 0 rest (clean_cons.1 clean).2).bind fun index left plainIndex cleanLeft => ?_
    refine .after fun left skipped => ?_
    split
    · next shorter =>
      refine ih index left shorter (cleanLeft.skipSymbol skipped) ?_
      simp [plainRoot.shown, plainIndex.shown]
    · exact .none
  | case4 => exact .some plainRoot clean

theorem rightSide_plain (plainLeft : left.Plain) (op : BinaryOp) :
    Reads Expr.Plain Clean (rightSide operand left op tokens) := by
  have direct : Reads Expr.Plain Clean ((operand op.precedence tokens).map fun read =>
      (.binary left op read.1, read.2)) :=
    (plain op.precedence tokens clean).map fun _ _ plainRight left =>
      ⟨Expr.plain_binary.2 ⟨plainLeft, plainRight⟩, left⟩
  unfold rightSide
  split
  · next quantifier _ =>
    split
    · next known =>
      have plainQuantifier : '?' ∉ quantifier.toList := by
        have each : ∀ word ∈ ["ANY", "ALL", "SOME"], '?' ∉ word.toList := by decide
        exact each quantifier (List.contains_iff_mem.1 known)
      refine .after fun rest skipped => ?_
      have cleanRest := clean.tail.skipSymbol skipped
      refine (plain _ rest cleanRest).bind fun right _ plainRight left => ?_
      refine .after fun _ skipped => ?_
      split
      · refine .some ?_ (left.skipSymbol skipped)
        simp [plainLeft.shown, op.text_plain, plainQuantifier, plainRight.shown]
      · exact .none
    · exact direct
  · exact direct

theorem property_plain (plainLeft : left.Plain) :
    Reads Expr.Plain Clean (property operand left tokens) := by
  unfold property
  split
  next negation rest same =>
  have opening : '?' ∉ negation.toList ∧ Clean rest := by
    split at same
    · next skipped =>
      cases same
      exact ⟨by decide, clean.skipKeywords skipped⟩
    · cases same
      exact ⟨by decide, clean⟩
  split
  · refine .after fun rest skipped => ?_
    have cleanRest := opening.2.skipKeywords skipped
    refine (plain 0 rest cleanRest).bind fun right _ plainRight left => .some ?_ left
    simp [plainLeft.shown, opening.1, plainRight.shown]
  · next keyword _ _ =>
    split
    · next known =>
      have plainKeyword : '?' ∉ keyword.toList := by
        have each : ∀ word ∈ ["NULL", "TRUE", "FALSE", "UNKNOWN"], '?' ∉ word.toList := by decide
        exact each keyword (List.contains_iff_mem.1 known)
      exact .some (by simp [plainLeft.shown, opening.1, plainKeyword]) opening.2.tail
    · exact .none
  · exact .none

omit plain in
theorem escapePart_plain : Reads ('?' ∉ String.toList ·) Clean (escapePart tokens) := by
  unfold escapePart
  split
  · exact .some (by simp) clean
  · next skipped =>
    obtain ⟨plainValue, left⟩ := clean_cons.1 (clean.skipKeywords skipped)
    rw [Token.Plain] at plainValue
    exact .some (by simp [plainValue]) left
  · next skipped =>
    obtain ⟨plainValue, left⟩ := clean_cons.1 (clean.skipKeywords skipped)
    rw [Token.Plain] at plainValue
    exact .some (by simp [plainValue]) left
  · exact .none

theorem keywordTest_plain (plainLeft : left.Plain) (negated : Bool) (keyword : String) :
    Reads Expr.Plain Clean (keywordTest operand left negated keyword tokens) := by
  have plainNegation : '?' ∉ (if negated then " NOT " else " ").toList := by
    cases negated <;> decide
  -- The pattern that `LIKE` and `ILIKE` compare with, after the same words but for the keyword.
  have pattern (head : String) (plainHead : '?' ∉ head.toList) :
      Reads Expr.Plain Clean ((operand 19 tokens).bind fun read =>
        (escapePart read.2).bind fun last =>
          some (.phrase (head ++ read.1.render ++ last.1), last.2)) := by
    refine (plain 19 tokens clean).bind fun pattern _ plainPattern left => ?_
    refine (escapePart_plain left).bind fun escape _ plainEscape left => .some ?_ left
    simp [plainHead, plainPattern.shown, plainEscape]
  have expression (head : String) (plainHead : '?' ∉ head.toList) :
      Reads Expr.Plain Clean ((operand 19 tokens).map fun read =>
        (.phrase (head ++ read.1.render), read.2)) := by
    refine (plain 19 tokens clean).map fun e _ plainExpr left => ⟨?_, left⟩
    simp [plainHead, plainExpr.shown]
  unfold keywordTest
  extract_lets head
  split
  · refine .after fun rest skipped => ?_
    have cleanRest := clean.skipSymbol skipped
    refine (closedList_plain plain cleanRest _).bind fun items _ plainItems left => .some ?_ left
    simp [head, plainLeft.shown, plainNegation, Expr.listing_plain plainItems]
  · refine (plain 20 tokens clean).bind fun low _ plainLow left => ?_
    refine .after fun rest skipped => ?_
    have cleanRest := left.skipKeywords skipped
    refine (plain 20 rest cleanRest).bind fun high _ plainHigh left => .some ?_ left
    simp [head, plainLeft.shown, plainNegation, plainLow.shown, plainHigh.shown]
  · exact pattern head (by simp [head, plainLeft.shown, plainNegation])
  · exact pattern head (by simp [head, plainLeft.shown, plainNegation])
  · exact expression head (by simp [head, plainLeft.shown, plainNegation])
  · exact expression head (by simp [head, plainLeft.shown, plainNegation])
  · split
    · exact .some (by simp [plainLeft.shown]) clean
    · exact .none
  · exact .none

theorem operation_plain (plainLeft : left.Plain) :
    Reads Expr.Plain Clean (operation operand left tokens) := by
  unfold operation
  split
  · next type rest =>
    obtain ⟨-, plainType, cleanRest⟩ := (clean_cons.1 clean).imp_right clean_cons.1
    exact .some (by simp [plainLeft.shown, typeText_plain plainType]) cleanRest
  · exact .after fun op _ => rightSide_plain plain (clean_cons.1 clean).2 plainLeft op
  · next token rest _ _ =>
    have cleanRest := (clean_cons.1 clean).2
    refine .after fun keyword _ => ?_
    split
    · next op _ => exact rightSide_plain plain cleanRest plainLeft op
    · split
      · exact property_plain plain cleanRest plainLeft
      · exact .after fun next _ => keywordTest_plain plain cleanRest.tail plainLeft true next
      · exact keywordTest_plain plain cleanRest plainLeft false keyword
  · exact .none

theorem operations_plain (level : Nat) (plainLeft : left.Plain) :
    Reads Expr.Plain Clean (operations operand level left tokens) := by
  fun_induction operations operand level left tokens with
  | case1 => exact .some plainLeft clean
  | case2 left tokens _ ih =>
    refine (operation_plain plain clean plainLeft).bind fun next rest plainNext cleanRest => ?_
    dsimp only
    split
    · next shorter => exact ih next rest shorter cleanRest plainNext
    · exact .none

end Reading

theorem readExpr_plain (depth : Nat) : (readExpr depth).Plain := by
  induction depth with
  | zero => exact fun _ _ _ => .none
  | succ depth ih =>
    intro level tokens clean
    refine (primary_plain ih clean).bind fun root _ plainRoot left => ?_
    refine (accesses_plain ih left plainRoot).bind fun whole _ plainWhole left => ?_
    exact operations_plain ih left level plainWhole

/-- An expression shows no question mark unless the text that it is read from does. -/
theorem read_plain {text : String} {expr : Expr} (plain : '?' ∉ text.toList)
    (ok : read text = .ok expr) : expr.Plain := by
  obtain ⟨tokens, start, left, lexed, suffix, starred⟩ := read_orStar ok
  have clean : Clean start := fun token mem => tokens?_plain plain lexed token (suffix.subset mem)
  exact (orStar_plain (readExpr_plain depthLimit) clean expr left starred).1

end TelemetryQuery.Sql
