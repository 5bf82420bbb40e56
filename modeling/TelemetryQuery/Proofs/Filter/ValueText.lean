import Mathlib.Data.List.Infix
import Mathlib.Data.List.TakeWhile
import TelemetryQuery.Filter.Variable
import TelemetryQuery.Proofs.Filter.Printer
import TelemetryQuery.Proofs.Filter.Token
/- Texts put into a filter as the values of variables: which of them are read back as they were. -/
namespace TelemetryQuery.Filter

variable {c : Char} {words : List Word} {name : String}

/-- Text that stands between single quotes as it is: it has no single quote, no two backslashes in
a row, and no backslash at its end. -/
structure Verbatim (text : List Char) : Prop where
  unquoted : '\'' ∉ text
  undoubled : ¬['\\', '\\'] <:+: text
  ended : text.getLast? ≠ some '\\'

theorem verbatim_nil : Verbatim [] :=
  ⟨by simp, by simp, by simp⟩

theorem verbatim_cons {text : List Char} (plain : c ≠ '\\') :
    Verbatim (c :: text) ↔ c ≠ '\'' ∧ Verbatim text := by
  have infix_iff : ['\\', '\\'] <:+: c :: text ↔ ['\\', '\\'] <:+: text := by
    simp [List.infix_cons_iff, plain.symm]
  have last : (c :: text).getLast? = some '\\' ↔ text.getLast? = some '\\' := by
    cases text with
    | nil => simp [plain]
    | cons d text => simp
  constructor
  · rintro ⟨unquoted, undoubled, ended⟩
    simp only [List.mem_cons, not_or] at unquoted
    exact ⟨Ne.symm unquoted.1, unquoted.2, mt infix_iff.2 undoubled, mt last.2 ended⟩
  · rintro ⟨other, unquoted, undoubled, ended⟩
    exact ⟨by simp [Ne.symm other, unquoted], mt infix_iff.1 undoubled, mt last.1 ended⟩

theorem verbatim_slash {text : List Char} :
    Verbatim ('\\' :: c :: text) ↔ c ≠ '\\' ∧ Verbatim (c :: text) := by
  have infix_iff : ['\\', '\\'] <:+: '\\' :: c :: text ↔
      c = '\\' ∨ ['\\', '\\'] <:+: c :: text := by
    rw [List.infix_cons_iff]
    simp [eq_comm]
  constructor
  · rintro ⟨unquoted, undoubled, ended⟩
    rw [infix_iff, not_or] at undoubled
    exact ⟨undoubled.1, by simpa using unquoted, undoubled.2, by simpa using ended⟩
  · rintro ⟨other, unquoted, undoubled, ended⟩
    exact ⟨by simpa using unquoted, by rw [infix_iff, not_or]; exact ⟨other, undoubled⟩,
      by simpa using ended⟩

/-- Induction along the scan of a quoted text, which goes over a backslash and the character after
it in one step and ends at a quote. -/
@[elab_as_elim]
theorem scan_induction {motive : List Char → Prop} (nil : motive []) (slash : motive ['\\'])
    (pair : ∀ c text, motive text → motive ('\\' :: c :: text))
    (quote : ∀ text, motive ('\'' :: text))
    (char : ∀ c text, c ≠ '\\' → c ≠ '\'' → motive text → motive (c :: text))
    (text : List Char) : motive text := by
  induction text using Text.quotedLength?.induct '\'' with
  | case1 => exact nil
  | case2 c text ih => exact pair c text ih
  | case3 text _ => exact quote text
  | case4 c text lone other ih =>
    by_cases plain : c = '\\'
    · subst plain
      cases text with
      | nil => exact slash
      | cons d text => exact absurd rfl (lone d text rfl)
    · exact char c text plain other ih

/-- The content of a text between quotes. -/
def unescape (text : List Char) : List Char :=
  Text.freeQuotes (Text.halveBackslashes text)

theorem unescape_char (plain : c ≠ '\\') (text : List Char) :
    unescape (c :: text) = c :: unescape text := by
  rw [unescape, Text.halveBackslashes_other _ plain, Text.freeQuotes_other _ plain, unescape]

theorem unescape_pair (plain : c ≠ '\\') (other : c ≠ '\'') (text : List Char) :
    unescape ('\\' :: c :: text) = '\\' :: c :: unescape text := by
  have halved : Text.halveBackslashes ('\\' :: c :: text) =
      '\\' :: c :: Text.halveBackslashes text := by
    rw [Text.halveBackslashes, Text.halveBackslashes_other _ plain]
    exact fun _ _ same => absurd (List.cons.inj same).1 plain
  rw [unescape, halved, Text.freeQuotes, Text.freeQuotes_other _ plain, unescape]
  exact fun _ _ same => absurd (List.cons.inj same).1 other

theorem unescape_quote (text : List Char) :
    unescape ('\\' :: '\'' :: text) = '\'' :: unescape text := by
  simp [unescape, Text.halveBackslashes, Text.freeQuotes]

theorem length_freeQuotes_le (text : List Char) : (Text.freeQuotes text).length ≤ text.length := by
  fun_induction Text.freeQuotes text <;> simp <;> omega

theorem length_halveBackslashes_le (text : List Char) :
    (Text.halveBackslashes text).length ≤ text.length := by
  fun_induction Text.halveBackslashes text <;> simp <;> omega

theorem length_unescape_le (text : List Char) : (unescape text).length ≤ text.length :=
  (length_freeQuotes_le _).trans (length_halveBackslashes_le text)

theorem length_unescape_slashes (text : List Char) :
    (unescape ('\\' :: '\\' :: text)).length ≤ text.length + 1 := by
  rw [unescape, Text.halveBackslashes]
  refine (length_freeQuotes_le _).trans ?_
  simpa using length_halveBackslashes_le text

theorem Verbatim.unescape_eq {text : List Char} (verbatim : Verbatim text) :
    unescape text = text := by
  induction text using scan_induction with
  | nil => rfl
  | slash => rfl
  | pair c text ih =>
    obtain ⟨plain, rest⟩ := verbatim_slash.1 verbatim
    obtain ⟨other, rest⟩ := (verbatim_cons plain).1 rest
    rw [unescape_pair plain other, ih rest]
  | quote text => exact absurd (List.mem_cons_self) verbatim.unquoted
  | char c text plain other ih => rw [unescape_char plain, ih ((verbatim_cons plain).1 verbatim).2]

/-- The text that a value is put into a filter as, without the quotes around it. -/
def doubleQuotes (text : List Char) : List Char :=
  text.flatMap fun c => if c = '\'' then [c, c] else [c]

theorem doubleQuotes_other (other : c ≠ '\'') (text : List Char) :
    doubleQuotes (c :: text) = c :: doubleQuotes text := by
  rw [doubleQuotes, List.flatMap_cons, if_neg other, List.singleton_append, doubleQuotes]

theorem formatValue_text (text : String) :
    (formatValue (.text text)).toList = '\'' :: (doubleQuotes text.toList ++ ['\'']) := by
  rw [formatValue, String.toList_ofList]
  rfl

theorem Verbatim.doubleQuotes_eq {text : List Char} (verbatim : Verbatim text) :
    doubleQuotes text = text := by
  have each : ∀ c ∈ text, (if c = '\'' then [c, c] else [c]) = [c] := by
    intro c mem
    refine if_neg ?_
    rintro rfl
    exact verbatim.unquoted mem
  rw [doubleQuotes, List.flatMap_congr each, List.flatMap_singleton']

/-- What stands before the quote that closes a quoted text. -/
def content? (text : List Char) : Option (List Char) :=
  (Text.quotedLength? '\'' text).map fun n => text.take (n - 1)

theorem content?_char (plain : c ≠ '\\') (other : c ≠ '\'') (text : List Char) :
    content? (c :: text) = (content? text).map (c :: ·) := by
  rw [content?, content?, quotedLength?_other _ plain other]
  cases closed : Text.quotedLength? '\'' text with
  | none => rfl
  | some n =>
    have positive := (quotedLength?_bounded closed).1
    have shift : 1 + n - 1 = n - 1 + 1 := by omega
    simp [shift]

theorem content?_pair (c : Char) (text : List Char) :
    content? ('\\' :: c :: text) = (content? text).map ('\\' :: c :: ·) := by
  rw [content?, content?, Text.quotedLength?]
  cases closed : Text.quotedLength? '\'' text with
  | none => rfl
  | some n =>
    have positive := (quotedLength?_bounded closed).1
    have shift : 2 + n - 1 = n - 1 + 1 + 1 := by omega
    simp [shift]

theorem Verbatim.content? {text : List Char} (verbatim : Verbatim text) :
    content? (text ++ ['\'']) = some text := by
  induction text using scan_induction with
  | nil => rfl
  | slash => exact absurd rfl verbatim.ended
  | pair c text ih =>
    obtain ⟨plain, rest⟩ := verbatim_slash.1 verbatim
    rw [List.cons_append, List.cons_append, content?_pair, ih ((verbatim_cons plain).1 rest).2]
    rfl
  | quote text => exact absurd List.mem_cons_self verbatim.unquoted
  | char c text plain other ih =>
    rw [List.cons_append, content?_char plain other, ih ((verbatim_cons plain).1 verbatim).2]
    rfl

/-- What is read of a value put into a filter is a start of the value: a quote in it ends the
content, before itself or, where a backslash protects it, before its double. -/
theorem content_starts {text content : List Char}
    (closed : content? (doubleQuotes text ++ ['\'']) = some content) : content <+: text := by
  induction text using scan_induction generalizing content with
  | nil =>
    obtain rfl := Option.some.inj closed
    exact List.nil_prefix
  | slash => cases closed
  | pair c text ih =>
    by_cases quoted : c = '\''
    · subst quoted
      obtain rfl := Option.some.inj closed
      exact ⟨text, rfl⟩
    · rw [doubleQuotes_other (by decide), doubleQuotes_other quoted, List.cons_append,
        List.cons_append, content?_pair] at closed
      obtain ⟨inner, found, rfl⟩ := Option.map_eq_some_iff.1 closed
      exact (List.prefix_cons_inj _).2 ((List.prefix_cons_inj _).2 (ih found))
  | quote text =>
    obtain rfl := Option.some.inj closed
    exact List.nil_prefix
  | char c text plain other ih =>
    rw [doubleQuotes_other other, List.cons_append, content?_char plain other] at closed
    obtain ⟨inner, found, rfl⟩ := Option.map_eq_some_iff.1 closed
    exact (List.prefix_cons_inj _).2 (ih found)

/-- A value that is read as a whole and has nothing to unescape is held as it is. -/
theorem verbatim_of_content {text : List Char}
    (closed : content? (doubleQuotes text ++ ['\'']) = some text)
    (same : unescape text = text) : Verbatim text := by
  induction text using scan_induction with
  | nil => exact verbatim_nil
  | slash => cases closed
  | pair c text ih =>
    have plain : c ≠ '\\' := by
      rintro rfl
      have shorter := length_unescape_slashes text
      rw [same, List.length_cons, List.length_cons] at shorter
      omega
    have other : c ≠ '\'' := by
      rintro rfl
      rw [unescape_quote] at same
      cases same
    rw [unescape_pair plain other] at same
    rw [doubleQuotes_other (by decide), doubleQuotes_other other, List.cons_append,
      List.cons_append, content?_pair] at closed
    obtain ⟨inner, found, whole⟩ := Option.map_eq_some_iff.1 closed
    simp only [List.cons.injEq, true_and] at whole same
    exact verbatim_slash.2 ⟨plain, (verbatim_cons plain).2 ⟨other, ih (whole ▸ found) same⟩⟩
  | quote text => cases closed
  | char c text plain other ih =>
    rw [unescape_char plain] at same
    rw [doubleQuotes_other other, List.cons_append, content?_char plain other] at closed
    obtain ⟨inner, found, whole⟩ := Option.map_eq_some_iff.1 closed
    simp only [List.cons.injEq, true_and] at whole same
    exact (verbatim_cons plain).2 ⟨other, ih (whole ▸ found) same⟩

/-- The content that is read back from a value put into a filter is the value exactly when the
quotes hold it as it is. -/
theorem content_eq_iff {text : List Char} :
    (∃ content, content? (doubleQuotes text ++ ['\'']) = some content ∧
      unescape content = text) ↔ Verbatim text := by
  constructor
  · rintro ⟨content, closed, same⟩
    -- Unescaping never makes a text longer, so the content is all of the value.
    have whole : content = text := by
      refine (content_starts closed).eq_of_length_le ?_
      have shorter := length_unescape_le content
      rwa [same] at shorter
    subst whole
    exact verbatim_of_content closed same
  · intro verbatim
    rw [verbatim.doubleQuotes_eq]
    exact ⟨text, verbatim.content?, verbatim.unescape_eq⟩

/-- The words of a text that starts with a token are that token and the words of what follows. -/
theorem Cuts.of_token {text rest : List Char} {kind : Kind} (cuts : Cuts (text ++ rest) words)
    (run : runAt (text ++ rest) = (.token kind, text.length)) :
    ∃ more, words = .ofText kind (String.ofList text) :: more ∧ Cuts rest more := by
  generalize whole : text ++ rest = all at cuts run
  cases cuts with
  | nil => cases run
  | gap gap _ =>
    rw [gap] at run
    cases run
  | @token first last other more run' later =>
    rw [run'] at run
    obtain ⟨kinds, lengths⟩ := Prod.mk.inj run
    obtain ⟨rfl, rfl⟩ := List.append_inj whole lengths.symm
    obtain rfl := Role.token.inj kinds
    exact ⟨more, rfl, later⟩

theorem Cuts.of_space {text : List Char} (cuts : Cuts (' ' :: text) words) : Cuts text words := by
  generalize whole : ' ' :: text = all at cuts
  have run : runAt (' ' :: text) = (.gap, 1) := rfl
  cases cuts with
  | nil => cases whole
  | gap gap later =>
    rw [← whole, run] at gap
    obtain ⟨-, rfl⟩ := List.cons.inj whole
    obtain ⟨-, rfl⟩ := Prod.mk.inj gap
    exact later
  | token token _ =>
    rw [← whole, run] at token
    cases token

/-- A quoted text is its content between two quotes. -/
theorem content?_split {text content : List Char} (closed : content? text = some content) :
    ∃ rest, text = content ++ '\'' :: rest ∧
      Text.quotedLength? '\'' text = some (content.length + 1) := by
  induction text using scan_induction generalizing content with
  | nil => cases closed
  | slash => cases closed
  | pair c text ih =>
    rw [content?_pair] at closed
    obtain ⟨inner, found, rfl⟩ := Option.map_eq_some_iff.1 closed
    obtain ⟨rest, rfl, length⟩ := ih found
    refine ⟨rest, rfl, ?_⟩
    rw [Text.quotedLength?, length]
    simp
    omega
  | quote text =>
    obtain rfl := Option.some.inj closed
    exact ⟨text, rfl, rfl⟩
  | char c text plain other ih =>
    rw [content?_char plain other] at closed
    obtain ⟨inner, found, rfl⟩ := Option.map_eq_some_iff.1 closed
    obtain ⟨rest, rfl, length⟩ := ih found
    refine ⟨rest, rfl, ?_⟩
    rw [quotedLength?_other _ plain other, length]
    simp
    omega

/-- The word of a text between quotes. -/
def quotedWord (content : List Char) : Word :=
  ⟨.quotedText, String.ofList ('\'' :: (content ++ ['\'']))⟩

theorem unquote_quotedWord (content : List Char) :
    Text.unquote (quotedWord content).text = String.ofList (unescape content) := by
  have inner : Text.stripQuotes ('\'' :: (content ++ ['\''])) = content := by
    simp [Text.stripQuotes]
  rw [quotedWord, Text.unquote, String.toList_ofList, inner, unescape]

theorem runAt_quoted {content rest : List Char}
    (closed : content? (content ++ '\'' :: rest) = some content) :
    runAt ('\'' :: (content ++ ['\'']) ++ rest) =
      (.token .quotedText, ('\'' :: (content ++ ['\''])).length) := by
  obtain ⟨_, _, length⟩ := content?_split closed
  have run := runAt_eq_token.2 (.quoted (.inl rfl) length)
  have whole : '\'' :: (content ++ ['\'']) ++ rest = '\'' :: (content ++ '\'' :: rest) := by simp
  rw [whole, run]
  simp
  omega

/-- What a text that starts with a quote is cut into: a quoted text, and the words after it. -/
theorem cuts_quote {body : List Char} :
    Cuts ('\'' :: body) words ↔ ∃ content rest more, content? body = some content ∧
      body = content ++ '\'' :: rest ∧ words = quotedWord content :: more ∧ Cuts rest more := by
  have split (content rest : List Char) :
      '\'' :: (content ++ '\'' :: rest) = '\'' :: (content ++ ['\'']) ++ rest := by simp
  constructor
  · intro cuts
    cases closed : content? body with
    | none =>
      have run : runAt ('\'' :: body) = (Text.quotedLength? '\'' body).elim (.stray, 1)
          fun n => (.token .quotedText, 1 + n) := rfl
      rw [Option.map_eq_none_iff.1 closed] at run
      generalize '\'' :: body = all at cuts run
      cases cuts with
      | nil => cases run
      | gap gap _ => cases run.symm.trans gap
      | token token _ => cases run.symm.trans token
    | some content =>
      obtain ⟨rest, rfl, -⟩ := content?_split closed
      rw [split] at cuts
      obtain ⟨more, same, later⟩ := cuts.of_token (runAt_quoted closed)
      exact ⟨content, rest, more, rfl, rfl, same, later⟩
  · rintro ⟨content, rest, more, closed, rfl, rfl, later⟩
    rw [split]
    exact .token (runAt_quoted closed) later

/-- A value put into a filter is one quoted text with the value as its content exactly when the
quotes hold it as it is. -/
theorem cuts_formatValue_iff {text : String} :
    (∃ raw, Cuts (formatValue (.text text)).toList [⟨.quotedText, raw⟩] ∧
      Text.unquote raw = text) ↔ Verbatim text.toList := by
  rw [formatValue_text]
  constructor
  · rintro ⟨raw, cuts, same⟩
    obtain ⟨content, rest, more, closed, _, words, _⟩ := cuts_quote.1 cuts
    have read : raw = (quotedWord content).text := congrArg Word.text (List.cons.inj words).1
    rw [read, unquote_quotedWord] at same
    exact content_eq_iff.1 ⟨content, closed, by rw [← same, String.toList_ofList]⟩
  · intro verbatim
    rw [verbatim.doubleQuotes_eq]
    refine ⟨(quotedWord text.toList).text,
      cuts_quote.2 ⟨text.toList, [], [], verbatim.content?, rfl, rfl, .nil⟩, ?_⟩
    rw [unquote_quotedWord, verbatim.unescape_eq, String.ofList_toList]

/-- A text that is one quoted text for the lexer, with the given content. -/
def IsQuoted (written content : String) : Prop :=
  (lex written).errors = [] ∧ ∃ token, (lex written).tokens = [token] ∧
    token.kind = .quotedText ∧ Text.unquote token.text = content

theorem isQuoted_iff {written content : String} :
    IsQuoted written content ↔
      ∃ raw, Cuts written.toList [⟨.quotedText, raw⟩] ∧ Text.unquote raw = content := by
  constructor
  · rintro ⟨clean, token, tokens, kind, same⟩
    refine ⟨token.text, cuts_iff.2 ⟨clean, ?_⟩, same⟩
    rw [tokens, List.map_singleton, (Token.word_open rfl).2 ⟨kind, rfl⟩]
  · rintro ⟨raw, cuts, same⟩
    obtain ⟨clean, words⟩ := cuts_iff.1 cuts
    obtain ⟨token, tokens, word⟩ := List.map_eq_singleton_iff.1 words
    obtain ⟨kind, text⟩ := (Token.word_open rfl).1 word
    exact ⟨clean, token, tokens, kind, text ▸ same⟩

/-- A text that is read as the one comparison that a key equals a value. -/
def Asserts (text key : String) (value : Value) : Prop :=
  ∃ place literal, literal.value = value ∧
    parse text = .ok (some [[.atom false (.comparison ⟨key, place⟩ (.relation .equal literal))]])

theorem spells_atom {negated : Bool} {atom : Atom}
    (spells : Spells (.branches [[.atom negated atom]]) words) :
    words = negationWords negated ++ atom.words := by
  cases spells with
  | only spells =>
    cases spells with
    | lone spells => cases spells with | atom _ => rfl
    | joined _ rest => cases rest
    | adjacent _ rest => cases rest
  | either _ rest => cases rest

theorem unplaced_eq_comparison {query : Query} {negated : Bool} {key : KeyRef} {test : Test}
    (same : Query.unplaced query = some [[.atom negated (.comparison key test)]]) :
    ∃ place, query = some [[.atom negated (.comparison ⟨key.text, place⟩ test)]] := by
  match query, same with
  | some [[.atom _ (.comparison ⟨_, place⟩ _)]], same =>
    cases same
    exact ⟨place, rfl⟩

/-- A key, an equals sign and a text that starts with a quote are the comparison of the key with a
text exactly when what starts with the quote is one quoted text with that content. -/
theorem asserts_iff {key written text : String} {body : List Char}
    (run : runAt key.toList = (.token .key, key.toList.length))
    (starts : written.toList = '\'' :: body) :
    Asserts (key ++ " = " ++ written) key (.text text) ↔ IsQuoted written text := by
  have chars : (key ++ " = " ++ written).toList =
      key.toList ++ ' ' :: (['='] ++ ' ' :: written.toList) := by simp
  have stops : Stops (' ' :: (['='] ++ ' ' :: written.toList)) := stops_cons (by decide) _
  have first := runAt_append stops run
  have equals : runAt (['='] ++ ' ' :: written.toList) = (.token .equals, ['='].length) := rfl
  rw [isQuoted_iff]
  constructor
  · rintro ⟨place, literal, value, ok⟩
    obtain ⟨words, cuts, spelled⟩ := parse_cuts ok
    rw [chars, spells_atom spelled] at cuts
    obtain ⟨_, words, cuts⟩ := cuts.of_token first
    obtain ⟨-, rfl⟩ := List.cons.inj words
    obtain ⟨_, words, cuts⟩ := cuts.of_space.of_token equals
    obtain ⟨-, rfl⟩ := List.cons.inj words
    have cuts := cuts.of_space
    rw [starts] at cuts
    obtain ⟨content, _, more, _, _, words, _⟩ := cuts_quote.1 cuts
    have word : literal.word = quotedWord content := (List.cons.inj words).1
    cases literal with
    | quoted raw => exact ⟨raw, starts ▸ cuts, Value.text.inj value⟩
    | number raw => cases word
    | bool raw => cases word
    | key raw => cases word
  · rintro ⟨raw, cuts, same⟩
    have cuts : Cuts (key ++ " = " ++ written).toList
        [.ofText .key (String.ofList key.toList), .fixed .equals, ⟨.quotedText, raw⟩] := by
      rw [chars]
      exact .token first (Cuts.space (.token equals cuts.space))
    rw [String.ofList_toList] at cuts
    have spelled : Query.Spelled
        (some [[.atom false (.comparison ⟨key, .start⟩ (.relation .equal (.quoted raw)))]])
        [.ofText .key key, .fixed .equals, ⟨.quotedText, raw⟩] := .only (.lone (.atom trivial))
    obtain ⟨found, ok, unplaced⟩ := parse_of_cuts cuts spelled
    obtain ⟨place, rfl⟩ := unplaced_eq_comparison unplaced
    exact ⟨place, .quoted raw, congrArg Value.text same, ok⟩

/-- The characters that references start with. -/
def referenceMarks : List Char :=
  ['\x7b', '[', '$']

theorem referenceAt?_unmarked (unmarked : c ∉ referenceMarks) (text : List Char) :
    referenceAt? (c :: text) = none := by
  simp only [referenceMarks, List.mem_cons, List.not_mem_nil, or_false, not_or] at unmarked
  unfold referenceAt?
  split <;> simp_all

theorem substitute_append {lead : List Char} (unmarked : ∀ c ∈ lead, c ∉ referenceMarks)
    (table : Variables) (text : List Char) :
    table.substitute (lead ++ text) =
      ⟨lead ++ (table.substitute text).result, (table.substitute text).skip⟩ := by
  induction lead with
  | nil => rfl
  | cons c lead ih =>
    obtain ⟨first, later⟩ := List.forall_mem_cons.1 unmarked
    rw [List.cons_append, Variables.substitute, referenceAt?_unmarked first, ih later]
    rfl

/-- A text that is the name of a variable and nothing else. -/
def IsVariableName (name : String) : Prop :=
  nameAt? continuesName name.toList = some (name.toList, [])

/-- A reference to a variable in doubled braces. -/
def braced (name : String) : String :=
  "\x7b\x7b" ++ name ++ "\x7d\x7d"

theorem referenceAt?_braced (named : IsVariableName name) :
    referenceAt? (braced name).toList = some (name.toList, []) := by
  have chars : (braced name).toList =
      '\x7b' :: '\x7b' :: (name.toList ++ ['\x7d', '\x7d']) := by simp [braced]
  rw [chars, referenceAt?]
  unfold IsVariableName at named
  generalize name.toList = letters at named
  cases letters with
  | nil => cases named
  | cons c tail =>
    rw [nameAt?] at named
    split at named
    · next starts =>
      have all : ∀ d ∈ tail, continuesName d = true :=
        List.dropWhile_eq_nil_iff.1 (Prod.mk.inj (Option.some.inj named)).2
      have visible : Text.isBlank c = false := isBlank_of_class (by decide +kernel) starts
      have undotted : c ≠ '.' := by
        rintro rfl
        cases starts
      have found : nameAt? continuesName (c :: (tail ++ ['\x7d', '\x7d'])) =
          some (c :: tail, ['\x7d', '\x7d']) := by
        rw [nameAt?, if_pos starts, List.takeWhile_append_of_pos all,
          List.dropWhile_append_of_pos all]
        simp [continuesName, continuesShortName]
      have closing : ['\x7d', '\x7d'].dropWhile Text.isBlank = ['\x7d', '\x7d'] := rfl
      simp [bracketed?, visible, undotted, found, closing]
    · cases named

/-- A text that starts and ends with visible characters has no white space to trim. -/
theorem trim_eq {text : String} {first last : Char} {inner : List Char}
    (chars : text.toList = first :: (inner ++ [last])) (start : Text.isBlank first = false)
    (stop : Text.isBlank last = false) : Text.trim text = text := by
  have turned : text.toList.reverse = last :: (inner.reverse ++ [first]) := by simp [chars]
  have kept : text.toList.dropWhile Text.isBlank = text.toList := by
    rw [chars, List.dropWhile_cons_of_neg (by simp [start])]
  rw [Text.trim, kept, turned, List.dropWhile_cons_of_neg (by simp [stop]), ← turned,
    List.reverse_reverse, String.ofList_toList]

theorem substitute_braced {table : Variables} {text : String} {kind : VariableKind}
    (named : IsVariableName name) (bound : table.lookup name = some ⟨kind, .text text⟩)
    (fixed : kind ≠ .dynamic) :
    table.substitute (braced name).toList = ⟨(formatValue (.text text)).toList, false⟩ := by
  have selects : Variable.selectsAll ⟨kind, .text text⟩ = false := by
    cases kind with
    | dynamic => exact absurd rfl fixed
    | _ => rfl
  have reference := referenceAt?_braced named
  cases chars : (braced name).toList with
  | nil =>
    rw [chars] at reference
    cases reference
  | cons c tail =>
    rw [chars] at reference
    have rest : table.substitute [] = ⟨[], false⟩ := by rw [Variables.substitute]
    rw [Variables.substitute, reference]
    simp [bound, selects, rest]

/-- A comparison of a key with a variable is resolved to one with the text of its value. -/
theorem resolveText_comparison {table : Variables} {key text : String} {kind : VariableKind}
    (run : runAt key.toList = (.token .key, key.toList.length))
    (unmarked : ∀ c ∈ key.toList, c ∉ referenceMarks) (named : IsVariableName name)
    (bound : table.lookup name = some ⟨kind, .text text⟩) (fixed : kind ≠ .dynamic) :
    table.resolveText (key ++ " = " ++ braced name) =
      .ok ⟨key ++ " = " ++ formatValue (.text text), false⟩ := by
  have lead : ∀ c ∈ key.toList ++ " = ".toList, c ∉ referenceMarks :=
    List.forall_mem_append.2 ⟨unmarked, by simp [referenceMarks]⟩
  have alone : reference? (Text.trim (key ++ " = " ++ braced name)) = none := by
    obtain ⟨⟨c, tail, chars, starts, -⟩, -⟩ := runAt_key_iff.1 run
    have whole : (key ++ " = " ++ braced name).toList = c :: (tail ++
        (" = \x7b\x7b".toList ++ (name.toList ++ ['\x7d'])) ++ ['\x7d']) := by
      simp [chars, braced]
    rw [trim_eq whole (isBlank_of_startsKey starts) rfl, reference?, whole,
      referenceAt?_unmarked (unmarked c (by simp [chars]))]
  have chars : (key ++ " = " ++ braced name).toList =
      (key.toList ++ " = ".toList) ++ (braced name).toList := by simp
  rw [Variables.resolveText, alone, chars, substitute_append lead,
    substitute_braced named bound fixed]
  have written : String.ofList (key.toList ++ " = ".toList ++ (formatValue (.text text)).toList) =
      key ++ " = " ++ formatValue (.text text) := String.toList_injective (by simp)
  rw [← written]
  simp only [Bool.false_eq_true, if_false]

theorem isQuoted_formatValue_iff {text : String} :
    IsQuoted (formatValue (.text text)) text ↔ Verbatim text.toList :=
  isQuoted_iff.trans cuts_formatValue_iff

/-- A variable that stands for a text, put into a filter, is read back as that text exactly when
single quotes hold the text as it is: then its written value is one quoted text with the text as
its content, and the filter is the comparison with the text. -/
theorem resolveText_reads_back_iff {table : Variables} {key name text : String}
    {kind : VariableKind} (run : runAt key.toList = (.token .key, key.toList.length))
    (unmarked : ∀ c ∈ key.toList, c ∉ referenceMarks) (named : IsVariableName name)
    (bound : table.lookup name = some ⟨kind, .text text⟩) (fixed : kind ≠ .dynamic) :
    (IsQuoted (formatValue (.text text)) text ↔ Verbatim text.toList) ∧
      ∃ resolved, table.resolveText (key ++ " = " ++ braced name) = .ok ⟨resolved, false⟩ ∧
        (Asserts resolved key (.text text) ↔ Verbatim text.toList) := by
  refine ⟨isQuoted_formatValue_iff, _, resolveText_comparison run unmarked named bound fixed, ?_⟩
  exact (asserts_iff run (formatValue_text text)).trans isQuoted_formatValue_iff

/-- Operators, double quotes and lone backslashes are held as they are. -/
theorem resolveText_reads_back_path :
    let text := "C:\\dir OR k = \"x\""
    let table : Variables := [("v.1", ⟨.query, .text text⟩)]
    IsQuoted (formatValue (.text text)) text ∧
      ∃ resolved, table.resolveText ("k" ++ " = " ++ braced "v.1") = .ok ⟨resolved, false⟩ ∧
        Asserts resolved "k" (.text text) := by
  intro text table
  have verbatim : Verbatim text.toList := ⟨by decide, by decide, by decide⟩
  have run : runAt "k".toList = (.token .key, "k".toList.length) := by decide +kernel
  obtain ⟨quoted, resolved, ok, asserts⟩ :=
    resolveText_reads_back_iff run (by simp [referenceMarks]) (rfl : IsVariableName "v.1")
      (rfl : table.lookup "v.1" = some ⟨.query, .text text⟩) (by decide)
  exact ⟨quoted.2 verbatim, resolved, ok, asserts.2 verbatim⟩

/-- A quote in the text ends it, and what follows is read as a part of the filter: here an
alternative, and a comment that takes the closing quote. -/
theorem resolveText_adds_alternative :
    let text := "\\' OR b EXISTS /*"
    let table : Variables := [("v", ⟨.query, .text text⟩)]
    let resolved := "k = '\\'' OR b EXISTS /*'"
    table.resolveText ("k" ++ " = " ++ braced "v") = .ok ⟨resolved, false⟩ ∧
      (parse resolved).toOption.map Query.render = some "k = '\\'' OR b EXISTS" ∧
      ¬IsQuoted (formatValue (.text text)) text ∧ ¬Asserts resolved "k" (.text text) := by
  intro text table resolved
  have run : runAt "k".toList = (.token .key, "k".toList.length) := by decide +kernel
  have quoted : ¬Verbatim text.toList := fun verbatim => verbatim.unquoted (by decide)
  have found : table.resolveText ("k" ++ " = " ++ braced "v") =
      .ok ⟨"k" ++ " = " ++ formatValue (.text text), false⟩ :=
    resolveText_comparison run (by simp [referenceMarks]) rfl rfl (by decide)
  have written : "k" ++ " = " ++ formatValue (.text text) = resolved := by decide +kernel
  rw [← written]
  refine ⟨found, by decide +kernel, mt isQuoted_formatValue_iff.1 quoted, ?_⟩
  rw [asserts_iff run (formatValue_text _), isQuoted_formatValue_iff]
  exact quoted

end TelemetryQuery.Filter
