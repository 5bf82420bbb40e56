import Mathlib.Data.List.Forall2
import Mathlib.Data.List.Induction
import Mathlib.Data.List.Pairwise
import Mathlib.Tactic.SplitIfs
import TelemetryQuery.Proofs.Filter.Token
/- The tokens of a text and what lies between them: every character is accounted for, and every
token and every error is told where it stands. -/
namespace TelemetryQuery.Filter

variable {c : Char} {offset : Nat} {run : Run}

/-- The place of the character at an offset. The line ends before it give its line, and the
characters since the last of them its column. -/
def placeAt (text : List Char) (offset : Nat) : Text.Place :=
  ⟨1 + (text.take offset).count '\n', ((text.take offset).reverse.takeWhile (· ≠ '\n')).length⟩

/-- Following the characters one by one leads to the place that is counted. -/
theorem after_take (text : List Char) (offset : Nat) :
    Text.Place.start.after (text.take offset) = placeAt text offset := by
  rw [placeAt]
  induction text.take offset using List.reverseRecOn with
  | nil => rfl
  | append_singleton passed c ih =>
    have step : Text.Place.start.after (passed ++ [c]) = (Text.Place.start.after passed).step c :=
      List.foldl_append
    rw [step, ih, Text.Place.step]
    by_cases line : c = '\n'
    · simp [line, Nat.add_assoc]
    · simp [line]

/-- A comment in a text, from its opening mark to the first closing mark after that, or to the end
of the text if there is none. -/
inductive Comment (text : List Char) (start : Nat) : Nat → Prop
  | closed {offset : Nat} : ['/', '*'] <+: text.drop start → start + 2 ≤ offset →
      ['*', '/'] <+: text.drop offset →
      (∀ earlier, start + 2 ≤ earlier → earlier < offset →
        ¬['*', '/'] <+: text.drop earlier) →
      Comment text start (offset + 2)
  | unclosed : ['/', '*'] <+: text.drop start →
      (∀ offset, start + 2 ≤ offset → ¬['*', '/'] <+: text.drop offset) →
      Comment text start text.length

/-- The text after an opening mark is taken up to its first closing mark, or as a whole. -/
theorem commentLength_cases (text : List Char) :
    (∃ offset, commentLength text = offset + 2 ∧ ['*', '/'] <+: text.drop offset ∧
      ∀ earlier < offset, ¬['*', '/'] <+: text.drop earlier) ∨
    commentLength text = text.length ∧ ∀ offset, ¬['*', '/'] <+: text.drop offset := by
  fun_induction commentLength text with
  | case1 text => exact .inl ⟨0, rfl, ⟨text, rfl⟩, by simp⟩
  | case2 c text unmarked ih =>
    have first : ¬['*', '/'] <+: c :: text := by
      rintro ⟨rest, same⟩
      obtain ⟨rfl, rfl⟩ := List.cons.inj same
      exact unmarked rest rfl rfl
    rcases ih with ⟨offset, length, marked, least⟩ | ⟨length, none⟩
    · refine .inl ⟨offset + 1, by omega, marked, ?_⟩
      intro earlier before
      cases earlier with
      | zero => exact first
      | succ earlier => exact least earlier (by omega)
    · refine .inr ⟨by simp [length, Nat.add_comm], ?_⟩
      intro offset
      cases offset with
      | zero => exact first
      | succ offset => exact none offset
  | case3 => exact .inr ⟨rfl, by simp⟩

theorem commentLength_le (text : List Char) : commentLength text ≤ text.length := by
  fun_induction commentLength text with
  | case1 => simp
  | case2 c text _ ih =>
    rw [List.length_cons]
    omega
  | case3 => simp

theorem comment_of_length {text more : List Char} {start : Nat}
    (opened : text.drop start = '/' :: '*' :: more) :
    Comment text start (start + (2 + commentLength more)) := by
  have mark : ['/', '*'] <+: text.drop start := opened ▸ ⟨more, rfl⟩
  have inside (offset : Nat) : text.drop (start + 2 + offset) = more.drop offset := by
    rw [Nat.add_assoc, ← List.drop_drop, opened, ← List.drop_drop]
    rfl
  rcases commentLength_cases more with ⟨offset, length, marked, least⟩ | ⟨length, none⟩
  · have closed : Comment text start (start + 2 + offset + 2) := by
      refine .closed mark (by omega) (by rwa [inside]) ?_
      intro earlier after before
      obtain ⟨shift, rfl⟩ := Nat.exists_eq_add_of_le after
      rw [inside]
      exact least shift (by omega)
    have stop : start + (2 + commentLength more) = start + 2 + offset + 2 := by omega
    rwa [stop]
  · have stop : start + (2 + commentLength more) = text.length := by
      have lengths := congrArg List.length opened
      simp only [List.length_drop, List.length_cons] at lengths
      omega
    rw [stop]
    refine .unclosed mark ?_
    intro offset after
    obtain ⟨shift, rfl⟩ := Nat.exists_eq_add_of_le after
    rw [inside]
    exact none shift

/-- Text in which every backslash stands before the character that it protects. -/
inductive Paired : List Char → Prop
  | nil : Paired []
  | pair {c : Char} {text : List Char} : Paired text → Paired ('\\' :: c :: text)
  | char {c : Char} {text : List Char} : c ≠ '\\' → Paired text → Paired (c :: text)

/-- Whether the text after a quote closes it: the quote occurs there again, and no backslash
protects it. -/
def Closes (quote : Char) (text : List Char) : Prop :=
  ∃ body rest, text = body ++ quote :: rest ∧ Paired body

theorem quotedLength?_isSome {quote : Char} (plain : quote ≠ '\\') {text : List Char} :
    (Text.quotedLength? quote text).isSome = true ↔ Closes quote text := by
  constructor
  · fun_induction Text.quotedLength? quote text with
    | case1 => simp
    | case2 c text ih =>
      intro closed
      obtain ⟨body, rest, rfl, paired⟩ := ih (by simpa using closed)
      exact ⟨'\\' :: c :: body, rest, rfl, .pair paired⟩
    | case3 text _ => exact fun _ => ⟨[], text, rfl, .nil⟩
    | case4 c text lone other ih =>
      intro closed
      obtain ⟨body, rest, rfl, paired⟩ := ih (by simpa using closed)
      by_cases slash : c = '\\'
      · -- A backslash with text behind it is a pair, so this one stands at the end.
        subst slash
        cases body with
        | nil => exact absurd rfl (lone _ _ rfl)
        | cons d body => exact absurd rfl (lone _ _ rfl)
      · exact ⟨c :: body, rest, rfl, .char slash paired⟩
  · rintro ⟨body, rest, rfl, paired⟩
    induction paired with
    | nil =>
      rw [List.nil_append, quotedLength?_quote quote rest plain]
      rfl
    | pair _ ih => simpa [Text.quotedLength?] using ih
    | @char c body other _ ih =>
      by_cases same : c = quote
      · rw [same, List.cons_append, quotedLength?_quote quote _ plain]
        rfl
      · rw [List.cons_append, quotedLength?_other _ other same]
        simpa using ih

/-- A character that starts nothing: an exclamation mark that no equals sign follows, or a quote
that is never closed. -/
inductive Stray (text : List Char) (offset : Nat) : Char → Prop
  | exclamation : text[offset]? = some '!' → text[offset + 1]? ≠ some '=' →
      Stray text offset '!'
  | quote {c : Char} : c = '\'' ∨ c = '"' → text[offset]? = some c →
      ¬Closes c (text.drop (offset + 1)) → Stray text offset c

/-- Why a span of a text has its role. -/
inductive Role.Fits (text : List Char) (start : Nat) : Nat → Role → Prop
  | token {stop : Nat} {kind : Kind} : kind ≠ .eof → Fits text start stop (.token kind)
  | blank {c : Char} : text[start]? = some c → Text.isBlank c = true →
      Fits text start (start + 1) .gap
  | comment {stop : Nat} : Comment text start stop → Fits text start stop .gap
  | stray {c : Char} : Stray text start c → Fits text start (start + 1) .stray

theorem Role.Fits.visible {text : List Char} {start stop : Nat} {kind : Kind}
    (fits : Fits text start stop (.token kind)) : kind ≠ .eof := by
  cases fits with
  | token visible => exact visible

theorem Kind.ofKeyword?_ne_eof (word : String) : (ofKeyword? word).getD .key ≠ .eof := by
  unfold ofKeyword?
  split <;> simp

theorem Starts.ne_eof {text : List Char} {kind : Kind} {n : Nat} (starts : Starts c text kind n) :
    kind ≠ .eof := by
  cases starts with
  | mark mark =>
    generalize text.head? = next at mark
    cases mark <;> simp
  | quoted => simp
  | word _ _ _ word =>
    rcases wordAt_eq_token.1 word with ⟨rfl, _⟩ | ⟨rfl, _⟩ | ⟨rfl, _⟩
    · simp
    · exact Kind.ofKeyword?_ne_eof _
    · simp

/-- A word starts with every character that does not end free text. -/
theorem wordAt_token (visible : endsFreeText c = false) (text : List Char) :
    ∃ kind n, wordAt (c :: text) = (.token kind, n) := by
  have free : 0 < freeTextLength (c :: text) := by
    rw [freeTextLength, List.takeWhile_cons_of_pos (by simp [visible])]
    simp
  rw [wordAt]
  split_ifs
  · exact ⟨_, _, rfl⟩
  · exact ⟨_, _, rfl⟩
  · exact ⟨_, _, rfl⟩

/-- What starts no token: a blank, a comment, or a character that starts nothing. -/
inductive Pause : Char → List Char → Role → Nat → Prop
  | blank {c : Char} {text : List Char} : Text.isBlank c = true → Pause c text .gap 1
  | comment {text : List Char} : Pause '/' ('*' :: text) .gap (2 + commentLength text)
  | exclamation {text : List Char} : text.head? ≠ some '=' → Pause '!' text .stray 1
  | quote {c : Char} {text : List Char} : c = '\'' ∨ c = '"' →
      Text.quotedLength? c text = none → Pause c text .stray 1

theorem runAt_cases (c : Char) (text : List Char) :
    (∃ kind n, runAt (c :: text) = (.token kind, n)) ∨
      ∃ role n, runAt (c :: text) = (role, n) ∧ Pause c text role n := by
  unfold runAt
  dsimp only
  split
  · next blank => exact .inr ⟨_, _, rfl, .blank blank⟩
  · next visible =>
    split
    · exact .inl ⟨_, _, rfl⟩
    · exact .inl ⟨_, _, rfl⟩
    · exact .inl ⟨_, _, rfl⟩
    · exact .inl ⟨_, _, rfl⟩
    · exact .inl ⟨_, _, rfl⟩
    · exact .inl ⟨_, _, rfl⟩
    · split
      · exact .inl ⟨_, _, rfl⟩
      · split <;> exact .inl ⟨_, _, rfl⟩
    · split <;> exact .inl ⟨_, _, rfl⟩
    · split
      · exact .inl ⟨_, _, rfl⟩
      · next other => exact .inr ⟨_, _, rfl, .exclamation other⟩
    · split
      · next star =>
        cases text with
        | nil => cases star
        | cons d text =>
          obtain rfl := Option.some.inj star
          exact .inr ⟨_, _, rfl, .comment⟩
      · exact .inl (wordAt_token (by decide) text)
    · cases closed : Text.quotedLength? '\'' text with
      | none => exact .inr ⟨_, _, rfl, .quote (.inl rfl) closed⟩
      | some n => exact .inl ⟨_, _, rfl⟩
    · cases closed : Text.quotedLength? '"' text with
      | none => exact .inr ⟨_, _, rfl, .quote (.inr rfl) closed⟩
      | some n => exact .inl ⟨_, _, rfl⟩
    · refine .inl (wordAt_token ?_ text)
      simp_all [endsFreeText]

/-- What a text starts with has its role for a reason, and takes some of the text. -/
theorem runAt_fits {text rest : List Char} {start : Nat} {role : Role} {n : Nat}
    (here : text.drop start = c :: rest) (run : runAt (c :: rest) = (role, n)) :
    Role.Fits text start (start + n) role ∧ 0 < n ∧ n ≤ rest.length + 1 := by
  have first : text[start]? = some c := by
    rw [← Nat.add_zero start, ← List.getElem?_drop, here]
    rfl
  have next : text[start + 1]? = rest.head? := by
    rw [← List.getElem?_drop, here, List.head?_eq_getElem?]
    rfl
  have later : text.drop (start + 1) = rest := by
    rw [← List.drop_drop, here]
    rfl
  rcases runAt_cases c rest with ⟨kind, m, token⟩ | ⟨other, m, found, pause⟩
  · cases run.symm.trans token
    have starts := runAt_eq_token.1 run
    exact ⟨.token starts.ne_eof, starts.pos, starts.bounded⟩
  · cases run.symm.trans found
    cases pause with
    | blank blank => exact ⟨.blank first blank, by omega, by omega⟩
    | @comment more =>
      refine ⟨.comment (comment_of_length here), by omega, ?_⟩
      have bounded := commentLength_le more
      simp only [List.length_cons]
      omega
    | exclamation other => exact ⟨.stray (.exclamation first (next ▸ other)), by omega, by omega⟩
    | quote isQuote none =>
      have plain : c ≠ '\\' := by
        rcases isQuote with rfl | rfl <;> decide
      refine ⟨.stray (.quote isQuote first ?_), by omega, by omega⟩
      rw [later, ← quotedLength?_isSome plain, none]
      simp

/-- A run that is what it says: a part of the text with its place, in a role that fits it. -/
structure Run.Sound (text : List Char) (run : Run) : Prop where
  start_lt_stop : run.start < run.stop
  stop_le : run.stop ≤ text.length
  chars : run.chars = (text.take run.stop).drop run.start
  place : run.place = placeAt text run.start
  fits : run.role.Fits text run.start run.stop

/-- Runs that lie end to end, from an offset to the end of the text. -/
inductive EndToEnd (text : List Char) : Nat → List Run → Prop
  | nil : EndToEnd text text.length []
  | cons {run : Run} {runs : List Run} : run.Sound text → EndToEnd text run.stop runs →
      EndToEnd text run.start (run :: runs)

theorem endToEnd_runsFrom {text rest : List Char} {start : Nat} (bound : start ≤ text.length)
    (here : text.drop start = rest) :
    EndToEnd text start (runsFrom (placeAt text start) start rest) := by
  generalize located : placeAt text start = place
  fun_induction runsFrom place start rest with
  | case1 place start =>
    have reached : text.length ≤ start := List.drop_eq_nil_iff.1 here
    obtain rfl := Nat.le_antisymm bound reached
    exact .nil
  | case2 place start c rest role n run chars ih =>
    obtain ⟨fits, positive, bounded⟩ := runAt_fits here run
    have length : chars.length = n := by
      simp [chars]
      omega
    have total : text.length = start + (rest.length + 1) := by
      have lengths := congrArg List.length here
      simp only [List.length_drop, List.length_cons] at lengths
      omega
    have taken : chars = (text.drop start).take n := by
      rw [here]
      obtain ⟨m, rfl⟩ := Nat.exists_eq_add_of_lt positive
      simp [chars]
    have next : text.drop (start + chars.length) = rest.drop (n - 1) := by
      rw [length, ← List.drop_drop, here]
      obtain ⟨m, rfl⟩ := Nat.exists_eq_add_of_lt positive
      simp
    have sound : Run.Sound text ⟨role, chars, place, start⟩ := by
      refine ⟨?_, ?_, ?_, located.symm, ?_⟩
      · simp [Run.stop]
        omega
      · simp [Run.stop]
        omega
      · rw [taken, Run.stop, List.drop_take]
        simp
      · simpa [Run.stop, length] using fits
    have after : placeAt text (start + chars.length) = place.after chars := by
      rw [← after_take, List.take_add, length, ← taken, ← located, ← after_take]
      exact List.foldl_append
    exact .cons sound (ih (by omega) next after)

namespace EndToEnd

variable {text : List Char} {start : Nat} {runs : List Run}

theorem sound (tiled : EndToEnd text start runs) : ∀ run ∈ runs, run.Sound text := by
  induction tiled with
  | nil => simp
  | cons sound _ ih => exact List.forall_mem_cons.2 ⟨sound, ih⟩

theorem start_le (tiled : EndToEnd text start runs) : ∀ run ∈ runs, start ≤ run.start := by
  induction tiled with
  | nil => simp
  | cons sound _ ih =>
    have positive := sound.start_lt_stop
    refine List.forall_mem_cons.2 ⟨Nat.le_refl _, fun run mem => ?_⟩
    have later := ih run mem
    omega

theorem ordered (tiled : EndToEnd text start runs) :
    runs.Pairwise fun a b => a.stop ≤ b.start := by
  induction tiled with
  | nil => exact .nil
  | cons _ tiled ih => exact .cons tiled.start_le ih

theorem starts_ordered (tiled : EndToEnd text start runs) :
    runs.Pairwise fun a b => a.start < b.start := by
  induction tiled with
  | nil => exact .nil
  | cons sound tiled ih =>
    refine .cons (fun run mem => ?_) ih
    exact Nat.lt_of_lt_of_le sound.start_lt_stop (tiled.start_le run mem)

/-- Each character lies in a run. -/
theorem covers (tiled : EndToEnd text start runs) (after : start ≤ offset)
    (within : offset < text.length) : ∃ run ∈ runs, run.start ≤ offset ∧ offset < run.stop := by
  induction tiled with
  | nil => omega
  | @cons run runs _ _ ih =>
    by_cases before : offset < run.stop
    · exact ⟨run, List.mem_cons_self, after, before⟩
    · obtain ⟨found, mem, inside⟩ := ih (Nat.le_of_not_lt before)
      exact ⟨found, List.mem_cons_of_mem run mem, inside⟩

/-- No character lies in two runs. -/
theorem run_unique (tiled : EndToEnd text start runs) {a b : Run} (aMem : a ∈ runs)
    (bMem : b ∈ runs) (inA : a.start ≤ offset ∧ offset < a.stop)
    (inB : b.start ≤ offset ∧ offset < b.stop) : a = b := by
  induction tiled with
  | nil => cases aMem
  | cons _ tiled ih =>
    rcases List.mem_cons.1 aMem with rfl | aLater
    · rcases List.mem_cons.1 bMem with rfl | bLater
      · rfl
      · have later := tiled.start_le b bLater
        omega
    · rcases List.mem_cons.1 bMem with rfl | bLater
      · have later := tiled.start_le a aLater
        omega
      · exact ih aLater bLater

end EndToEnd

/-- A token is the part of the text between its offsets, and its place is that of its start. -/
structure Token.Located (text : List Char) (token : Token) : Prop where
  start_lt_stop : token.start < token.stop
  stop_le : token.stop ≤ text.length
  chars : token.text = String.ofList ((text.take token.stop).drop token.start)
  place : token.place = placeAt text token.start
  visible : token.kind ≠ .eof

/-- An offset that lies in none of the tokens. -/
def Lexed.Outside (lexed : Lexed) (offset : Nat) : Prop :=
  ∀ token ∈ lexed.tokens, ¬(token.start ≤ offset ∧ offset < token.stop)

/-- The error about the stray character at an offset. -/
def Reports (text : List Char) (offset : Nat) (error : SyntaxError) : Prop :=
  ∃ c, Stray text offset c ∧
    error = ⟨placeAt text offset, some (String.singleton c), .unrecognised c, []⟩

/-- Tokens that tile a text together with its blanks, its comments and its stray characters, which
are the ones at the given offsets. -/
structure Lexed.Tiles (text : List Char) (strays : List Nat) (lexed : Lexed) : Prop where
  ending : lexed.ending = ⟨.eof, "<EOF>", placeAt text text.length, text.length, text.length⟩
  located : ∀ token ∈ lexed.tokens, token.Located text
  ordered : lexed.tokens.Pairwise fun a b => a.stop ≤ b.start
  strays_ordered : strays.Pairwise (· < ·)
  strays_outside : ∀ offset ∈ strays, lexed.Outside offset
  reported : List.Forall₂ (Reports text) strays lexed.errors
  filled : ∀ offset < text.length, lexed.Outside offset →
    (∃ c, text[offset]? = some c ∧ Text.isBlank c = true) ∨
    (∃ start stop, Comment text start stop ∧ start ≤ offset ∧ offset < stop ∧
      ∀ other, start ≤ other → other < stop → lexed.Outside other) ∨
    offset ∈ strays

/-- The offset of a run that is a stray character. -/
def Run.stray? (run : Run) : Option Nat :=
  if run.role = .stray then some run.start else none

theorem Run.token?_eq_some {token : Token} (found : run.token? = some token) :
    ∃ kind, run.role = .token kind ∧
      token = ⟨kind, String.ofList run.chars, run.place, run.start, run.stop⟩ := by
  unfold token? at found
  split at found
  · next kind role => exact ⟨kind, role, (Option.some.inj found).symm⟩
  · cases found

theorem Run.stray?_eq_some (found : run.stray? = some offset) :
    run.role = .stray ∧ offset = run.start := by
  unfold stray? at found
  split at found
  · next role => exact ⟨role, (Option.some.inj found).symm⟩
  · cases found

theorem Run.Sound.token_located {text : List Char} {token : Token} (sound : run.Sound text)
    (found : run.token? = some token) : token.Located text := by
  obtain ⟨kind, role, rfl⟩ := Run.token?_eq_some found
  exact ⟨sound.start_lt_stop, sound.stop_le, congrArg String.ofList sound.chars, sound.place,
    (role ▸ sound.fits).visible⟩

/-- A stray run is the character that its error tells. -/
theorem Run.Sound.reports {text : List Char} (sound : run.Sound text) :
    (run.stray? = none ∧ run.error? = none) ∨
      ∃ error, run.stray? = some run.start ∧ run.error? = some error ∧
        Reports text run.start error := by
  cases role : run.role with
  | token kind => exact .inl ⟨by simp [stray?, role], by simp [error?, role]⟩
  | gap => exact .inl ⟨by simp [stray?, role], by simp [error?, role]⟩
  | stray =>
    have fits := sound.fits
    rw [role] at fits
    generalize same : run.stop = stop at fits
    cases fits with
    | @stray c stray =>
      have chars : run.chars = [c] := by
        have first : text[run.start]? = some c := by
          cases stray <;> assumption
        rw [sound.chars, same, List.drop_take, Nat.add_sub_cancel_left,
          List.drop_eq_getElem?_toList_append, first]
        rfl
      refine .inr ⟨_, by simp [stray?, role], by rw [error?, role, chars], c, stray, ?_⟩
      rw [sound.place]

namespace EndToEnd

variable {text : List Char} {start : Nat} {runs : List Run}

theorem reported (tiled : EndToEnd text start runs) :
    List.Forall₂ (Reports text) (runs.filterMap Run.stray?) (runs.filterMap Run.error?) := by
  induction tiled with
  | nil => exact .nil
  | cons sound _ ih =>
    rcases sound.reports with ⟨stray, error⟩ | ⟨error, stray, found, reports⟩
    · rwa [List.filterMap_cons_none stray, List.filterMap_cons_none error]
    · rw [List.filterMap_cons_some stray, List.filterMap_cons_some found]
      exact .cons reports ih

theorem tokens_ordered (tiled : EndToEnd text start runs) :
    (runs.filterMap Run.token?).Pairwise fun a b => a.stop ≤ b.start := by
  refine List.Pairwise.filterMap _ ?_ tiled.ordered
  intro a b before first foundFirst second foundSecond
  obtain ⟨_, _, rfl⟩ := Run.token?_eq_some foundFirst
  obtain ⟨_, _, rfl⟩ := Run.token?_eq_some foundSecond
  exact before

theorem strays_ordered (tiled : EndToEnd text start runs) :
    (runs.filterMap Run.stray?).Pairwise (· < ·) := by
  refine List.Pairwise.filterMap _ ?_ tiled.starts_ordered
  intro a b before first foundFirst second foundSecond
  obtain ⟨_, rfl⟩ := Run.stray?_eq_some foundFirst
  obtain ⟨_, rfl⟩ := Run.stray?_eq_some foundSecond
  exact before

variable {lexed : Lexed}

/-- No token reaches into a run that is none. -/
theorem outside (tiled : EndToEnd text start runs)
    (tokens : lexed.tokens = runs.filterMap Run.token?) (mem : run ∈ runs)
    (silent : run.token? = none) (after : run.start ≤ offset) (before : offset < run.stop) :
    lexed.Outside offset := by
  intro token tokenMem inside
  rw [tokens] at tokenMem
  obtain ⟨other, otherMem, found⟩ := List.mem_filterMap.1 tokenMem
  obtain ⟨kind, role, rfl⟩ := Run.token?_eq_some found
  obtain rfl := tiled.run_unique mem otherMem ⟨after, before⟩ inside
  cases silent.symm.trans found

theorem strays_outside (tiled : EndToEnd text start runs)
    (tokens : lexed.tokens = runs.filterMap Run.token?) :
    ∀ offset ∈ runs.filterMap Run.stray?, lexed.Outside offset := by
  intro offset mem
  obtain ⟨run, runMem, found⟩ := List.mem_filterMap.1 mem
  obtain ⟨role, rfl⟩ := Run.stray?_eq_some found
  have silent : run.token? = none := by rw [Run.token?, role]
  exact tiled.outside tokens runMem silent (Nat.le_refl _) (tiled.sound run runMem).start_lt_stop

/-- What lies in no token is blank, in a comment or stray. -/
theorem filled (tiled : EndToEnd text 0 runs) (tokens : lexed.tokens = runs.filterMap Run.token?)
    (within : offset < text.length) (visible : lexed.Outside offset) :
    (∃ c, text[offset]? = some c ∧ Text.isBlank c = true) ∨
    (∃ start stop, Comment text start stop ∧ start ≤ offset ∧ offset < stop ∧
      ∀ other, start ≤ other → other < stop → lexed.Outside other) ∨
    offset ∈ runs.filterMap Run.stray? := by
  obtain ⟨run, mem, after, before⟩ := tiled.covers (Nat.zero_le offset) within
  have fits := (tiled.sound run mem).fits
  -- The indices of `fits` have to be variables before its cases can be split.
  generalize role : run.role = kind at fits
  generalize same : run.stop = stop at fits before
  cases fits with
  | @token stop kind _ =>
    have found : run.token? =
        some ⟨kind, String.ofList run.chars, run.place, run.start, run.stop⟩ := by
      rw [Run.token?, role]
    have listed := tokens ▸ List.mem_filterMap.2 ⟨run, mem, found⟩
    exact absurd ⟨after, same ▸ before⟩ (visible _ listed)
  | @blank c first blank =>
    obtain rfl : offset = run.start := by omega
    exact .inl ⟨c, first, blank⟩
  | comment comment =>
    have silent : run.token? = none := by rw [Run.token?, role]
    refine .inr (.inl ⟨run.start, stop, comment, after, before, ?_⟩)
    intro other otherAfter otherBefore
    exact tiled.outside tokens mem silent otherAfter (same ▸ otherBefore)
  | stray _ =>
    obtain rfl : offset = run.start := by omega
    exact .inr (.inr (List.mem_filterMap.2 ⟨run, mem, by rw [Run.stray?, if_pos role]⟩))

end EndToEnd

/-- Every text is tiled by its tokens, blanks, comments and stray characters; the tokens and the
errors are told where they stand. -/
theorem lex_tiles (text : String) : ∃ strays, (lex text).Tiles text.toList strays := by
  have tiled : EndToEnd text.toList 0 (runsFrom .start 0 text.toList) :=
    endToEnd_runsFrom (Nat.zero_le _) rfl
  have tokens : (lex text).tokens =
    (runsFrom .start 0 text.toList).filterMap Run.token? := rfl
  refine ⟨(runsFrom .start 0 text.toList).filterMap Run.stray?, ?_, ?_, tiled.tokens_ordered,
    tiled.strays_ordered, tiled.strays_outside tokens, tiled.reported, ?_⟩
  · rw [lex, ← after_take, List.take_length]
  · intro token mem
    obtain ⟨run, runMem, found⟩ := List.mem_filterMap.1 mem
    exact (tiled.sound run runMem).token_located found
  · intro offset within visible
    exact tiled.filled tokens within visible

end TelemetryQuery.Filter
