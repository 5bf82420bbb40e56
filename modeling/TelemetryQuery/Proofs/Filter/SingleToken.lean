import TelemetryQuery.Proofs.Filter.Unquoting
/- Texts that are one token of a filter: the literals of texts, and the normal texts of keys. -/
namespace TelemetryQuery

namespace Text

theorem replaceAll_char (mark : Char) (replacement text : List Char) :
    replaceAll [mark] replacement text =
      text.flatMap fun c => if c = mark then replacement else [c] := by
  induction text with
  | nil => simp [replaceAll]
  | cons c text ih =>
    rw [replaceAll, List.flatMap_cons]
    by_cases same : c = mark
    · simp [same, ih]
    · simp [same, Ne.symm same, ih]

/-- A text is escaped in two passes: the second protects the quotes, and touches nothing that the
first has written. -/
theorem escape_two_passes (text : List Char) :
    escape text = replaceAll ['\''] ['\\', '\''] (replaceAll ['\\'] ['\\', '\\'] text) := by
  rw [replaceAll_char, replaceAll_char, List.flatMap_assoc, escape]
  congr 1
  funext c
  by_cases slash : c = '\\'
  · simp [slash]
  · by_cases quote : c = '\'' <;> simp [slash, quote]

end Text

namespace Filter

open TelemetryQuery.Field (Key)

/-- What a text holds that is one token from its start to its end. -/
def Lexed.single (kind : Kind) (text : String) : Lexed where
  tokens := [⟨kind, text, .start, 0, text.toList.length⟩]
  errors := []
  ending := ⟨.eof, "<EOF>", Text.Place.start.after text.toList, text.toList.length,
    text.toList.length⟩

theorem lex_single {kind : Kind} {text : String}
    (run : runAt text.toList = (.token kind, text.toList.length)) :
    lex text = .single kind text := by
  have runs : runsFrom .start 0 text.toList = [⟨.token kind, text.toList, .start, 0⟩] := by
    cases chars : text.toList with
    | nil =>
      rw [chars] at run
      exact absurd (congrArg Prod.fst run) Role.noConfusion
    | cons c rest =>
      rw [chars] at run
      rw [runsFrom, run]
      simp [runsFrom]
  simp [lex, runs, Run.token?, Run.error?, Run.stop, Lexed.single]

/-- The literal of a text is read back as the text. It is one quoted token without an error, the
token is a literal whose value is the text, and a comparison with it is a comparison with the text,
whatever backslashes and quotes the text holds. -/
theorem text_literal_reads_back (text : String) :
    let written := (Value.text text).literal
    written.toList = '\'' :: Text.replaceAll ['\''] ['\\', '\'']
        (Text.replaceAll ['\\'] ['\\', '\\'] text.toList) ++ ['\''] ∧
      lex written = .single .quotedText written ∧ Text.unquote written = text ∧
      (∀ token ∈ (lex written).tokens, (literal? token).map Literal.value = some (.text text)) ∧
      ∀ key : String, runAt key.toList = (.token .key, key.toList.length) →
        Asserts (key ++ " = " ++ written) key (.text text) := by
  intro written
  have chars : written.toList = '\'' :: Text.escape text.toList ++ ['\''] := String.toList_ofList
  have content : Text.unquote written = text := Text.unquote_quote text
  have lexed : lex written = .single .quotedText written := lex_single (runAt_quote text)
  refine ⟨?_, lexed, content, ?_, fun key run => (asserts_iff run chars).2 ?_⟩
  · rw [chars, Text.escape_two_passes]
  · rw [lexed, Lexed.single, List.forall_mem_singleton]
    exact congrArg (some ∘ Value.text) content
  · rw [IsQuoted, lexed]
    exact ⟨rfl, _, rfl, rfl, content⟩

/-- The text is a backslash and a quote, and its literal six characters. -/
theorem text_literal_reads_back_quote :
    (Value.text "\\'").literal = "'\\\\\\''" ∧
      Asserts ("k = " ++ (Value.text "\\'").literal) "k" (.text "\\'") := by
  have key : runAt "k".toList = (.token .key, "k".toList.length) := by decide +kernel
  obtain ⟨-, -, -, -, asserts⟩ := text_literal_reads_back "\\'"
  exact ⟨by decide, asserts "k" key⟩

/-- The text of the field that a text names is a normal form: it names the same field, whatever
the text is. If the text is a key of a filter, then so is its normal form, and nothing else. -/
theorem key_text_normal :
    (∀ text, Key.ofText (Key.ofText text).toText = Key.ofText text) ∧
      ∀ input, ∀ token ∈ (lex input).tokens, token.kind = .key →
        lex (Key.ofText token.text).toText = .single .key (Key.ofText token.text).toText := by
  refine ⟨fun text => (Key.toText_renamed text).2, fun input token mem key => ?_⟩
  have run := runsFrom_token_run _ _ _ token mem
  rw [key] at run
  exact lex_single (runAt_toText run)

/-- A context and a type by other names, around a name that starts with a context and has a colon of
its own. -/
theorem key_text_normal_synonyms :
    let token : Token := ⟨.key, "Tag.log.a:b:INT8", ⟨1, 0⟩, 0, 16⟩
    token ∈ (lex "Tag.log.a:b:INT8").tokens ∧
      lex "attribute.log.a:b:number" = .single .key "attribute.log.a:b:number" := by
  intro token
  have mem : token ∈ (lex "Tag.log.a:b:INT8").tokens := by decide +kernel
  have normal : (Key.ofText token.text).toText = "attribute.log.a:b:number" := by decide +kernel
  exact ⟨mem, normal ▸ key_text_normal.2 _ token mem rfl⟩

end Filter

end TelemetryQuery
