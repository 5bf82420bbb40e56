import TelemetryQuery.Text.Quoted
/- Quoted text holds exactly the text that was quoted. -/
namespace TelemetryQuery.Text

/-- How one character is written inside quotes. -/
theorem escape_cons (c : Char) (text : List Char) :
    escape (c :: text) = (if c = '\\' || c = '\'' then ['\\', c] else [c]) ++ escape text :=
  rfl

/-- Text in which only single quotes are protected. -/
def guardQuotes (text : List Char) : List Char :=
  text.flatMap fun c => if c = '\'' then ['\\', c] else [c]

theorem guardQuotes_cons (c : Char) (text : List Char) :
    guardQuotes (c :: text) = (if c = '\'' then ['\\', c] else [c]) ++ guardQuotes text :=
  rfl

theorem halveBackslashes_other {c : Char} (text : List Char) (plain : c ≠ '\\') :
    halveBackslashes (c :: text) = c :: halveBackslashes text := by
  rw [halveBackslashes]
  exact fun _ same => absurd same plain

theorem halveBackslashes_escape (text : List Char) :
    halveBackslashes (escape text) = guardQuotes text := by
  induction text with
  | nil => rfl
  | cons c text ih =>
    rw [escape_cons, guardQuotes_cons]
    by_cases slash : c = '\\'
    · subst slash
      simp [halveBackslashes, ih]
    · by_cases quoted : c = '\''
      · subst quoted
        simp [halveBackslashes, ih]
      · simp [slash, quoted, halveBackslashes_other _ slash, ih]

theorem freeQuotes_other {c : Char} (text : List Char) (plain : c ≠ '\\') :
    freeQuotes (c :: text) = c :: freeQuotes text := by
  rw [freeQuotes]
  exact fun _ same => absurd same plain

/-- A guarded text does not start with a bare quote, so a backslash before it stays. -/
theorem freeQuotes_backslash (text : List Char) :
    freeQuotes ('\\' :: guardQuotes text) = '\\' :: freeQuotes (guardQuotes text) := by
  cases text with
  | nil => rfl
  | cons c text =>
    rw [guardQuotes_cons]
    split
    · simp [freeQuotes]
    · next other =>
      rw [List.singleton_append, freeQuotes]
      exact fun _ _ same => absurd (List.cons.inj same).1 other

theorem freeQuotes_guardQuotes (text : List Char) : freeQuotes (guardQuotes text) = text := by
  induction text with
  | nil => rfl
  | cons c text ih =>
    by_cases slash : c = '\\'
    · subst slash
      have guarded : guardQuotes ('\\' :: text) = '\\' :: guardQuotes text := rfl
      rw [guarded, freeQuotes_backslash, ih]
    · by_cases quoted : c = '\''
      · subst quoted
        simp [guardQuotes_cons, freeQuotes, ih]
      · simp [guardQuotes_cons, quoted, freeQuotes_other _ slash, ih]

/-- The content of a quoted text is the text that was quoted. -/
theorem unquote_quote (text : String) : unquote (quote text) = text := by
  have inner : stripQuotes ('\'' :: (escape text.toList ++ ['\''])) = escape text.toList := by
    simp [stripQuotes]
  rw [unquote, quote, String.toList_ofList, List.cons_append, inner, halveBackslashes_escape,
    freeQuotes_guardQuotes, String.ofList_toList]

/-- A quoted text ends at its closing quote. -/
theorem quotedLength?_escape (text rest : List Char) :
    quotedLength? '\'' (escape text ++ '\'' :: rest) = some ((escape text).length + 1) := by
  induction text with
  | nil => rfl
  | cons c text ih =>
    rw [escape_cons]
    split
    · rw [List.append_assoc]
      change (quotedLength? '\'' (escape text ++ '\'' :: rest)).map (2 + ·) = _
      rw [ih]
      simp
      omega
    · next plain =>
      simp at plain
      rw [List.append_assoc, List.singleton_append, quotedLength?, if_neg plain.2, ih]
      · simp
        omega
      · exact fun _ _ same => absurd same plain.1

end TelemetryQuery.Text
