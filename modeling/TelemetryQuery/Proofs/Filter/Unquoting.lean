import TelemetryQuery.Proofs.Filter.Tiling
import TelemetryQuery.Proofs.Filter.ValueText
/- The content of a quoted token against its escapes undone in one pass. The content is found in two
passes, and the second may take a backslash that the first has left to stand for two of them. -/
namespace TelemetryQuery

variable {c quote : Char}

/-- The escapes of a text undone in one pass from left to right: a backslash before a backslash or
a single quote goes, and everything else stays. -/
def Text.decode : List Char → List Char
  | '\\' :: '\\' :: text => '\\' :: decode text
  | '\\' :: '\'' :: text => '\'' :: decode text
  | c :: text => c :: decode text
  | [] => []

namespace Filter

open Text (decode)

/-- A text in which a single quote stands right behind a backslash that another one protects. -/
def Swallows (text : List Char) : Prop :=
  ∃ before after, Paired before ∧ text = before ++ '\\' :: '\\' :: '\'' :: after

theorem not_swallows_nil : ¬Swallows [] := by
  rintro ⟨before, after, -, same⟩
  simp at same

theorem not_swallows_slash : ¬Swallows ['\\'] := by
  rintro ⟨before, after, -, same⟩
  have lengths := congrArg List.length same
  simp at lengths
  omega

theorem swallows_char {text : List Char} (plain : c ≠ '\\') :
    Swallows (c :: text) ↔ Swallows text := by
  constructor
  · rintro ⟨before, after, paired, same⟩
    cases paired with
    | nil => exact absurd (List.cons.inj same).1 plain
    | pair _ => exact absurd (List.cons.inj same).1 plain
    | char _ paired => exact ⟨_, after, paired, (List.cons.inj same).2⟩
  · rintro ⟨before, after, paired, rfl⟩
    exact ⟨c :: before, after, .char plain paired, rfl⟩

theorem swallows_pair {text : List Char} :
    Swallows ('\\' :: c :: text) ↔ c = '\\' ∧ text.head? = some '\'' ∨ Swallows text := by
  constructor
  · rintro ⟨before, after, paired, same⟩
    cases paired with
    | nil =>
      simp only [List.nil_append, List.cons.injEq, true_and] at same
      exact .inl ⟨same.1, by rw [same.2]; rfl⟩
    | pair paired =>
      simp only [List.cons_append, List.cons.injEq, true_and] at same
      exact .inr ⟨_, after, paired, same.2⟩
    | char plain _ => exact absurd (List.cons.inj same).1.symm plain
  · rintro (⟨rfl, quoted⟩ | ⟨before, after, paired, rfl⟩)
    · obtain ⟨after, rfl⟩ := List.head?_eq_some_iff.1 quoted
      exact ⟨[], after, .nil, rfl⟩
    · exact ⟨'\\' :: c :: before, after, .pair paired, rfl⟩

theorem decode_char (plain : c ≠ '\\') (text : List Char) :
    decode (c :: text) = c :: decode text := by
  rw [decode]
  · exact fun _ same => absurd same plain
  · exact fun _ same => absurd same plain

theorem decode_pair (plain : c ≠ '\\') (other : c ≠ '\'') (text : List Char) :
    decode ('\\' :: c :: text) = '\\' :: c :: decode text := by
  rw [decode, decode_char plain]
  · exact fun _ _ same => absurd (List.cons.inj same).1 plain
  · exact fun _ _ same => absurd (List.cons.inj same).1 other

/-- The backslash that two stand for stays if no quote follows. -/
theorem unescape_slashes {text : List Char} (unquoted : text.head? ≠ some '\'') :
    unescape ('\\' :: '\\' :: text) = '\\' :: unescape text := by
  rw [unescape, Text.halveBackslashes, Text.freeQuotes, unescape]
  intro _ rest same
  -- Halving keeps the first character, so the quote would stand first in the text itself.
  cases text with
  | nil => cases same
  | cons d text =>
    by_cases slash : d = '\\'
    · subst slash
      unfold Text.halveBackslashes at same
      split at same <;> simp_all
    · rw [Text.halveBackslashes_other _ slash] at same
      exact unquoted (congrArg some (List.cons.inj same).1)

/-- Before a quote that backslash is taken for the protection of the quote, and goes as well. -/
theorem unescape_swallowed {text : List Char} (quoted : text.head? = some '\'') :
    unescape ('\\' :: '\\' :: text) = unescape text := by
  obtain ⟨after, rfl⟩ := List.head?_eq_some_iff.1 quoted
  simp [unescape, Text.halveBackslashes, Text.freeQuotes]

/-- Induction along a text that goes over a backslash and the character after it in one step. -/
@[elab_as_elim]
theorem pair_induction {motive : List Char → Prop} (nil : motive []) (slash : motive ['\\'])
    (pair : ∀ c text, motive text → motive ('\\' :: c :: text))
    (char : ∀ c text, c ≠ '\\' → motive text → motive (c :: text)) (text : List Char) :
    motive text := by
  induction text using Text.quotedLength?.induct '\\' with
  | case1 => exact nil
  | case2 c text ih => exact pair c text ih
  | case3 text lone =>
    cases text with
    | nil => exact slash
    | cons c text => exact absurd rfl (lone c text rfl)
  | case4 c text _ other ih => exact char c text other ih

theorem unescape_eq_decode {text : List Char} (kept : ¬Swallows text) :
    unescape text = decode text := by
  induction text using pair_induction with
  | nil => rfl
  | slash => rfl
  | pair c text ih =>
    obtain ⟨apart, rest⟩ := not_or.1 (mt swallows_pair.2 kept)
    by_cases slash : c = '\\'
    · subst slash
      rw [unescape_slashes fun quoted => apart ⟨rfl, quoted⟩, decode, ih rest]
    · by_cases quote : c = '\''
      · subst quote
        rw [unescape_quote, decode, ih rest]
      · rw [unescape_pair slash quote, decode_pair slash quote, ih rest]
  | char c text plain ih =>
    rw [unescape_char plain, decode_char plain, ih (mt (swallows_char plain).2 kept)]

/-- The content is never longer than the text decoded in one pass, and shorter if a backslash is
swallowed. -/
theorem length_unescape (text : List Char) :
    (unescape text).length ≤ (decode text).length ∧
      (Swallows text → (unescape text).length < (decode text).length) := by
  induction text using pair_induction with
  | nil => exact ⟨Nat.le_refl _, fun swallows => absurd swallows not_swallows_nil⟩
  | slash => exact ⟨Nat.le_refl _, fun swallows => absurd swallows not_swallows_slash⟩
  | pair c text ih =>
    rw [swallows_pair]
    by_cases slash : c = '\\'
    · subst slash
      rw [decode, List.length_cons]
      by_cases quoted : text.head? = some '\''
      · rw [unescape_swallowed quoted]
        exact ⟨Nat.le_succ_of_le ih.1, fun _ => Nat.lt_succ_of_le ih.1⟩
      · rw [unescape_slashes quoted, List.length_cons]
        simpa [quoted] using ih
    · by_cases quote : c = '\''
      · subst quote
        rw [unescape_quote, decode]
        simpa using ih
      · simpa [unescape_pair slash quote, decode_pair slash quote, slash] using ih
  | char c text plain ih =>
    rw [swallows_char plain, unescape_char plain, decode_char plain]
    simpa using ih

theorem unescape_eq_decode_iff {text : List Char} :
    unescape text = decode text ↔ ¬Swallows text :=
  ⟨fun same swallows =>
      absurd (congrArg List.length same) (Nat.ne_of_lt ((length_unescape text).2 swallows)),
    unescape_eq_decode⟩

/-- Text between two quotes: every backslash stands before the character that it protects, and
every such quote behind a backslash. -/
inductive Enclosed (quote : Char) : List Char → Prop
  | nil : Enclosed quote []
  | pair {c : Char} {text : List Char} : Enclosed quote text → Enclosed quote ('\\' :: c :: text)
  | char {c : Char} {text : List Char} : c ≠ '\\' → c ≠ quote → Enclosed quote text →
      Enclosed quote (c :: text)

theorem Enclosed.head?_ne {text : List Char} (enclosed : Enclosed quote text)
    (plain : quote ≠ '\\') : text.head? ≠ some quote := by
  cases enclosed with
  | nil => simp
  | pair _ => simpa using plain.symm
  | char _ other _ => simpa using other

/-- Between single quotes no backslash is swallowed. -/
theorem Enclosed.not_swallows {text : List Char} (enclosed : Enclosed '\'' text) :
    ¬Swallows text := by
  induction enclosed with
  | nil => exact not_swallows_nil
  | pair enclosed ih =>
    intro swallows
    rcases swallows_pair.1 swallows with ⟨-, quoted⟩ | later
    · exact enclosed.head?_ne (by decide) quoted
    · exact ih later
  | char plain _ _ ih => exact mt (swallows_char plain).1 ih

/-- What stands before the closing quote. -/
theorem enclosed_of_quotedLength? {text : List Char} {n : Nat}
    (closed : Text.quotedLength? quote text = some n) :
    ∃ body rest, text = body ++ quote :: rest ∧ n = body.length + 1 ∧ Enclosed quote body := by
  fun_induction Text.quotedLength? quote text generalizing n with
  | case1 => cases closed
  | case2 c text ih =>
    obtain ⟨m, inner, rfl⟩ := Option.map_eq_some_iff.1 closed
    obtain ⟨body, rest, rfl, rfl, enclosed⟩ := ih inner
    exact ⟨'\\' :: c :: body, rest, rfl, by simp; omega, .pair enclosed⟩
  | case3 text _ =>
    cases closed
    exact ⟨[], text, rfl, rfl, .nil⟩
  | case4 c text lone other ih =>
    obtain ⟨m, inner, rfl⟩ := Option.map_eq_some_iff.1 closed
    obtain ⟨body, rest, rfl, rfl, enclosed⟩ := ih inner
    by_cases slash : c = '\\'
    · subst slash
      obtain ⟨d, more, same⟩ := List.exists_cons_of_ne_nil (l := body ++ quote :: rest) (by simp)
      exact (lone d more rfl same).elim
    · exact ⟨c :: body, rest, rfl, by simp; omega, .char slash other enclosed⟩

/-- A token is told from its own text, whatever stands around it and whether or not there are stray
characters. -/
theorem runsFrom_token_run (place : Text.Place) (start : Nat) (text : List Char) :
    ∀ token ∈ (runsFrom place start text).filterMap Run.token?,
      runAt token.text.toList = (.token token.kind, token.text.toList.length) := by
  fun_induction runsFrom place start text with
  | case1 => simp
  | case2 place start c text role length run chars ih =>
    cases role with
    | gap => exact ih
    | stray => exact ih
    | token kind =>
      refine List.forall_mem_cons.2 ⟨?_, ih⟩
      obtain ⟨whole, same⟩ := runAt_split run
      have cut : runAt (chars ++ text.drop (length - 1)) = (.token kind, chars.length) := by
        rw [← whole, run, same]
      rw [String.toList_ofList]
      exact runAt_cut cut

theorem wordAt_ne_quotedText (text : List Char) : (wordAt text).1 ≠ .token .quotedText := by
  unfold wordAt
  dsimp only
  split
  · simp
  · split
    · unfold Kind.ofKeyword?
      split <;> simp
    · split <;> simp

theorem quoted_token {text : String} {token : Token} (mem : token ∈ (lex text).tokens)
    (quoted : token.kind = .quotedText) :
    ∃ quote body, (quote = '\'' ∨ quote = '"') ∧
      token.text.toList = quote :: (body ++ [quote]) ∧ Enclosed quote body := by
  have run := runsFrom_token_run _ _ _ token mem
  rw [quoted] at run
  cases chars : token.text.toList with
  | nil =>
    rw [chars] at run
    exact absurd (congrArg Prod.fst run) Role.noConfusion
  | cons c rest =>
    rw [chars] at run
    generalize length : (c :: rest).length = n at run
    cases runAt_eq_token.1 run with
    | mark mark =>
      generalize rest.head? = next at mark
      cases mark
    | quoted quote closed =>
      obtain ⟨body, more, rfl, rfl, enclosed⟩ := enclosed_of_quotedLength? closed
      have ended : more = [] := by
        simp at length
        exact List.length_eq_zero_iff.1 (by omega)
      exact ⟨c, body, quote, by rw [ended], enclosed⟩
    | word _ _ _ word => exact absurd (congrArg Prod.fst word) (wordAt_ne_quotedText _)

theorem unquote_enclosed {body : List Char} {text : String} (isQuote : quote = '\'' ∨ quote = '"')
    (chars : text.toList = quote :: (body ++ [quote])) :
    Text.unquote text = String.ofList (unescape body) := by
  have inner : Text.stripQuotes (quote :: (body ++ [quote])) = body := by
    rcases isQuote with rfl | rfl <;> simp [Text.stripQuotes]
  rw [Text.unquote, chars, inner, unescape]

/-- The content of a quoted token is the text between its quotes with its escapes undone in one
pass, unless a single quote stands there right behind a protected backslash. This never happens
between single quotes. -/
theorem unquote_token_iff {text : String} {token : Token} (mem : token ∈ (lex text).tokens)
    (quoted : token.kind = .quotedText) :
    ∃ quote body, (quote = '\'' ∨ quote = '"') ∧ token.text.toList = quote :: (body ++ [quote]) ∧
      (Text.unquote token.text = String.ofList (decode body) ↔ ¬Swallows body) ∧
      (quote = '\'' → Text.unquote token.text = String.ofList (decode body)) := by
  obtain ⟨quote, body, isQuote, chars, enclosed⟩ := quoted_token mem quoted
  have content := unquote_enclosed isQuote chars
  have agrees : Text.unquote token.text = String.ofList (decode body) ↔ ¬Swallows body := by
    rw [content, String.ofList_inj, unescape_eq_decode_iff]
  refine ⟨quote, body, isQuote, chars, agrees, ?_⟩
  rintro rfl
  exact agrees.2 enclosed.not_swallows

/-- Between double quotes, a protected quote right behind a protected backslash. -/
theorem unquote_token_iff_protected :
    let token : Token := ⟨.quotedText, "\"a\\\\\\'b\"", ⟨1, 4⟩, 4, 12⟩
    token ∈ (lex "k = \"a\\\\\\'b\"").tokens ∧ token.kind = .quotedText ∧
    ∃ quote body, (quote = '\'' ∨ quote = '"') ∧ token.text.toList = quote :: (body ++ [quote]) ∧
      (Text.unquote token.text = String.ofList (decode body) ↔ ¬Swallows body) ∧
      (quote = '\'' → Text.unquote token.text = String.ofList (decode body)) := by
  intro token
  have mem : token ∈ (lex "k = \"a\\\\\\'b\"").tokens := by decide +kernel
  exact ⟨mem, rfl, unquote_token_iff mem rfl⟩

/-- Between double quotes two backslashes and a single quote have the quote alone as their content.
In one pass a backslash is left before it. -/
theorem unquote_loses_backslash :
    let token : Token := ⟨.quotedText, "\"\\\\'\"", ⟨1, 0⟩, 0, 5⟩
    token ∈ (lex "\"\\\\'\"").tokens ∧ token.text.toList = '"' :: (['\\', '\\', '\''] ++ ['"']) ∧
      Text.unquote token.text = "'" ∧ String.ofList (decode ['\\', '\\', '\'']) = "\\'" := by
  decide +kernel

end Filter

end TelemetryQuery
