import TelemetryQuery.Proofs.Having.Acceptance
import TelemetryQuery.Proofs.Having.ColumnTable
/- Conditions on results read again after columns have taken the place of their references. -/
namespace TelemetryQuery.Having

variable {spots : List Spot} {spot : Spot}

variable {table : List (String × String)} {ending : List Char}

/-- The lexeme that a spot is read as in the end, where a column may be a reserved word. -/
def Spot.reading (columns : List String) : Spot → Lexeme
  | ⟨gap, .reference i _ raw⟩ =>
    ⟨gap, .ofWord (String.ofList (filled columns i raw)), filled columns i raw⟩
  | spot => spot.lexeme columns

/-- What spots are read as in the end: a column is one word with a word right after it. -/
def readings (columns : List String) : List Spot → List Lexeme
  | [] => []
  | ⟨gap, .reference i _ raw⟩ :: ⟨[], .word chars⟩ :: rest =>
    ⟨gap, .ofWord (String.ofList (filled columns i raw ++ chars)), filled columns i raw ++ chars⟩ ::
      readings columns rest
  | spot :: rest => spot.reading columns :: readings columns rest

theorem Spot.gap_reading (columns : List String) (spot : Spot) :
    (spot.reading columns).gap = spot.gap := by
  obtain ⟨gap, slot⟩ := spot
  cases slot <;> rfl

theorem Spot.chars_reading (columns : List String) (spot : Spot) :
    (spot.reading columns).chars = spot.slot.shown (filled columns) := by
  obtain ⟨gap, slot⟩ := spot
  cases slot <;> rfl

theorem lay_readings (columns : List String) (spots : List Spot) :
    lay ending (readings columns spots) = shown (filled columns) ending spots := by
  fun_induction readings columns spots with
  | case1 => rfl
  | case2 gap i operand raw chars rest ih =>
    rw [lay, shown, shown, ih]
    simp [Slot.shown]
  | case3 spot rest _ ih => rw [lay, shown, ih, spot.gap_reading, spot.chars_reading]

/-- A column is shown in place of a reference. -/
theorem filled_reference {i : Nat} {operand : Operand} {raw : List Char}
    (proper : Slot.Proper table (.reference i operand raw)) :
    ∃ entry ∈ table, filled (table.map (·.2)) i raw = entry.2.toList := by
  obtain ⟨_, index, _⟩ := proper
  obtain ⟨entry, found, _⟩ := Option.map_eq_some_iff.1 index
  refine ⟨entry, List.mem_of_getElem? found, ?_⟩
  rw [filled, List.getElem?_map, found]
  rfl

theorem nameChars_filled (targets : ∀ entry ∈ table, IsTarget entry.2) {i : Nat}
    {operand : Operand} {raw : List Char} (proper : Slot.Proper table (.reference i operand raw)) :
    NameChars (filled (table.map (·.2)) i raw) := by
  obtain ⟨entry, mem, shows⟩ := filled_reference proper
  rw [shows]
  exact (targets entry mem).chars

/-- In the end text starts as it was written, or with a column. -/
theorem head_filled (targets : ∀ entry ∈ table, IsTarget entry.2)
    (arranged : Arranged table ending spots) :
    (shown (filled (table.map (·.2))) ending spots).head? =
        (shown asWritten ending spots).head? ∨
      (∃ spot ∈ spots.head?, spot.slot.isReference = true) ∧
        ∃ c, (shown (filled (table.map (·.2))) ending spots).head? = some c ∧
          startsIdentifier c = true := by
  rcases head_shown arranged (filled (table.map (·.2))) with
    same | ⟨_, _, _, spot, next, direct, reference⟩
  · exact .inl same
  · refine .inr ⟨⟨spot, next, reference⟩, ?_⟩
    cases spots with
    | nil => cases next
    | cons first rest =>
      obtain rfl := Option.some.inj next
      obtain ⟨gap, slot⟩ := first
      obtain rfl : gap = [] := direct
      cases slot with
      | reference i operand raw =>
        obtain ⟨c, more, split, starts⟩ := (nameChars_filled targets arranged.1.proper).cons
        refine ⟨c, ?_, starts⟩
        rw [shown, Slot.shown, split]
        rfl
      | _ => cases reference

theorem stops_of_edge {rest : List Char} (edge : Edge rest) :
    rest.head?.any continuesIdentifier = false := by
  cases rest with
  | nil => rfl
  | cons c rest =>
    rw [List.head?_cons, Option.any_some]
    exact (isEdge_cases (edge c rfl)).1

/-- A name stops before a slot that joins, unless a word follows it directly. -/
theorem stops_of_joins {rest : List Spot} (arranged : Arranged table ending rest)
    (joins : ∀ next ∈ rest.head?, next.slot.joins = true)
    (gapped : ∀ chars more, rest ≠ ⟨[], .word chars⟩ :: more)
    (display : Nat → List Char → List Char) :
    (shown display ending rest).head?.any continuesIdentifier = false := by
  cases rest with
  | nil =>
    cases ending with
    | nil => rfl
    | cons c ending => exact continuesIdentifier_blank (arranged c List.mem_cons_self)
  | cons next rest =>
    obtain ⟨gap, slot⟩ := next
    obtain ⟨fits, _⟩ := arranged
    cases gap with
    | cons c gap => exact continuesIdentifier_blank (fits.blank c List.mem_cons_self)
    | nil =>
      have follows := joins _ rfl
      cases slot with
      | mark kind chars =>
        obtain ⟨nonempty, marks⟩ : chars ≠ [] ∧ ∀ c ∈ chars, c ∈ markChars := fits.proper
        obtain ⟨c, more, rfl⟩ := List.exists_cons_of_ne_nil nonempty
        exact continuesIdentifier_mark (marks c List.mem_cons_self)
      | word chars => exact absurd rfl (gapped chars rest)
      | _ => cases follows

/-- Each spot is one token in the end, if a column is not followed by a word. -/
theorem Spot.Fits.token (targets : ∀ entry ∈ table, IsTarget entry.2) {rest : List Spot}
    (fits : spot.Fits table ending rest) (arranged : Arranged table ending rest)
    (stops : spot.slot.isReference = true →
      (shown (filled (table.map (·.2))) ending rest).head?.any continuesIdentifier = false) :
    tokenAt? ((spot.reading (table.map (·.2))).chars ++
        shown (filled (table.map (·.2))) ending rest) =
      some ((spot.reading (table.map (·.2))).kind,
        (spot.reading (table.map (·.2))).chars.length) := by
  obtain ⟨gap, slot⟩ := spot
  cases slot with
  | mark kind chars =>
    refine token_of_mark fits.cut fun d head mark => ?_
    rcases head_filled targets arranged with same | ⟨_, c, first, starts⟩
    · rw [← same]
      exact head
    · rw [first] at head
      obtain rfl := Option.some.inj head
      rw [startsIdentifier_mark mark] at starts
      cases starts
  | number chars =>
    have number : PlainNumber table chars := fits.proper
    refine token_of_number number.whole number.starts ?_
    rcases head_filled targets arranged with same | ⟨⟨next, follows, reference⟩, _⟩
    · rw [EndsNumber, same]
      exact fits.cut
    · rw [fits.number rfl next follows] at reference
      cases reference
  | word chars =>
    have word : NameChars chars := fits.proper.1
    have edge := edge_shown arranged fits.stops.1 (filled (table.map (·.2)))
    have token := token_of_word word.starts word.continues (stops_of_edge edge)
    simp only [Spot.reading, Spot.lexeme]
    exact token
  | reference i operand raw =>
    have word := nameChars_filled targets fits.proper
    have token := token_of_word word.starts word.continues (stops rfl)
    simp only [Spot.reading]
    exact token

/-- No spot starts with a blank in the end. -/
theorem Spot.Fits.solid (targets : ∀ entry ∈ table, IsTarget entry.2) {rest : List Spot}
    (fits : spot.Fits table ending rest) :
    (spot.reading (table.map (·.2))).chars.head?.any (!Text.isBlank ·) = true := by
  obtain ⟨gap, slot⟩ := spot
  rw [Spot.chars_reading]
  cases reference : slot.isReference with
  | false =>
    obtain ⟨c, more, shows, _, solid⟩ := Slot.Proper.cons fits.proper reference _
    rw [shows, List.head?_cons, Option.any_some, solid]
    rfl
  | true =>
    cases slot with
    | reference i operand raw =>
      obtain ⟨c, more, split, starts⟩ := (nameChars_filled targets fits.proper).cons
      rw [Slot.shown, split, List.head?_cons, Option.any_some, not_blank_of_starts starts]
      rfl
    | _ => cases reference

/-- What spots are read as are the tokens of their text. -/
theorem laid_readings (targets : ∀ entry ∈ table, IsTarget entry.2)
    (arranged : Arranged table ending spots) (apart : Apart spots) :
    Laid ending (readings (table.map (·.2)) spots) := by
  fun_induction readings (table.map (·.2)) spots with
  | case1 => exact arranged
  | case2 gap i operand raw chars rest ih =>
    obtain ⟨fits, next, others⟩ := arranged
    have column := nameChars_filled targets fits.proper
    have word : NameChars chars := next.proper.1
    have edge := edge_shown others next.stops.1 (filled (table.map (·.2)))
    obtain ⟨c, more, split, starts⟩ := column.cons
    have token := token_of_word (by rw [split]; exact starts)
      (List.forall_mem_append.2 ⟨column.continues, word.continues⟩) (stops_of_edge edge)
    refine ⟨fits.blank, ?_, ?_, ih others (List.isChain_cons.1 (List.isChain_cons.1 apart).2).2⟩
    · rw [split, List.cons_append, List.head?_cons, Option.any_some, not_blank_of_starts starts]
      rfl
    · dsimp only
      rw [lay_readings]
      exact token
  | case3 spot rest single ih =>
    obtain ⟨fits, others⟩ := arranged
    obtain ⟨joins, later⟩ := List.isChain_cons.1 apart
    refine ⟨?_, fits.solid targets, ?_, ih others later⟩
    · rw [spot.gap_reading]
      exact fits.blank
    · rw [lay_readings]
      refine fits.token targets others fun reference => ?_
      refine stops_of_joins others (fun next head => joins next head reference) ?_ _
      rintro chars more rfl
      obtain ⟨gap, slot⟩ := spot
      cases slot with
      | reference i operand raw => exact single _ _ _ _ _ _ rfl rfl
      | _ => cases reference

/-- Columns that no word follows directly are read one by one. -/
theorem readings_of_spaced (arranged : Arranged table ending spots) (spaced : Spaced ending spots)
    (columns : List String) : readings columns spots = spots.map (Spot.reading columns) := by
  fun_induction readings columns spots with
  | case1 => rfl
  | case2 gap i operand raw chars rest _ =>
    obtain ⟨c, more, rfl, starts⟩ := NameChars.cons arranged.2.1.proper.1
    exact absurd (spaced.1 rfl c rfl) (not_edge_of_starts starts)
  | case3 spot rest _ ih => rw [List.map_cons, ih arranged.2 spaced.2]

/-- A column that is no reserved word is read as a name. -/
theorem Spot.Fits.reading_eq {rest : List Spot} (fits : spot.Fits table ending rest)
    (named : ∀ entry ∈ table, Kind.ofWord entry.2 = .identifier) :
    spot.reading (table.map (·.2)) = spot.lexeme (table.map (·.2)) := by
  obtain ⟨gap, slot⟩ := spot
  cases slot with
  | reference i operand raw =>
    obtain ⟨entry, mem, shows⟩ := filled_reference fits.proper
    rw [Spot.reading, Spot.lexeme, shows, String.ofList_toList, named entry mem]
  | _ => rfl

theorem map_reading (arranged : Arranged table ending spots)
    (named : ∀ entry ∈ table, Kind.ofWord entry.2 = .identifier) :
    spots.map (Spot.reading (table.map (·.2))) = spots.map (Spot.lexeme (table.map (·.2))) := by
  induction spots with
  | nil => rfl
  | cons spot rest ih =>
    rw [List.map_cons, List.map_cons, arranged.1.reading_eq named, ih arranged.2]

/-- A condition whose references columns know, and in whose numbers no references are found. -/
structure Known (columns : Columns) (text : String) (expr : Expr) : Prop where
  suits : columns.Suits text.toList
  unquoted : Unquoted text.toList
  parsed : parse text = .ok (some expr)
  known : ∀ reference ∈ expr.references, columns.knows reference = true
  numbers : ∀ token ∈ (lex text).tokens, token.kind = .number →
    ∀ entry ∈ columns, Clear token.text.toList entry.1

/-- A condition as spots, and what it is read as after columns are put into it. -/
structure Outcome (columns : Columns) (text : String) (expr : Expr) (ending : List Char)
    (spots : List Spot) : Prop where
  arranged : Arranged (longestFirst columns) ending spots
  apart : Apart spots
  spaced : CallsApart text.toList → Spaced ending spots
  spelled : (expr.replace columns.rename).Spelled
    ((spots.map (Spot.lexeme ((longestFirst columns).map (·.2)))).map Lexeme.word)
  clean : (lex (substitute columns text)).errors = []
  tokens : (lex (substitute columns text)).tokens.map Token.word =
    (readings ((longestFirst columns).map (·.2)) spots).map Lexeme.word

section

variable {columns : Columns} {text : String} {expr : Expr}

/-- The references of a condition, as they stand in its text. -/
theorem Known.reference (known : Known columns text expr) {lexemes : List Lexeme}
    (laid : Laid ending lexemes) (layout : text.toList = lay ending lexemes)
    (words : lexemes.map Lexeme.word = wordsOf expr.pieces) {operand : Operand}
    (mem : .reference operand ∈ expr.pieces) :
    strip operand.render.toList <:+: strip text.toList ∧ columns.Holds operand := by
  have unquoted := known.unquoted
  rw [layout] at unquoted
  obtain ⟨lexical, stands⟩ := reference_within laid unquoted words mem
  rw [← layout] at stands
  refine ⟨stands, known.suits.holds lexical stands (expr.proper_pieces _ mem) ?_⟩
  intro reference isReference
  refine known.known reference ?_
  rw [expr.references_eq, List.mem_flatMap]
  exact ⟨_, mem, isReference⟩

theorem Known.readable (known : Known columns text expr) :
    ∃ ending lexemes, text.toList = lay ending lexemes ∧
      Readable (longestFirst columns) text.toList ending lexemes expr.pieces := by
  obtain ⟨clean, spelled⟩ := parse_sound known.parsed
  obtain ⟨ending, lexemes, layout, laid, tokens⟩ := laid_of_lexFrom .start text.toList clean
  have words : lexemes.map Lexeme.word = wordsOf expr.pieces := by
    rw [← tokens]
    exact spelled.words_eq
  refine ⟨ending, lexemes, layout, laid, ?_, ?_, ?_, words, expr.linked, ?_⟩
  · exact ⟨[], [], by rw [List.nil_append, List.append_nil, layout]⟩
  · rw [← layout]
    exact known.unquoted
  · intro lexeme mem number entry among
    have isToken : lexeme.word ∈ (lex text).tokens.map Token.word := by
      rw [lex, tokens]
      exact List.mem_map_of_mem mem
    obtain ⟨token, inside, same⟩ := List.mem_map.1 isToken
    obtain ⟨gap, kind, chars⟩ := lexeme
    obtain rfl : kind = .number := number
    have word : token.word = ⟨.number, String.ofList chars⟩ := same
    obtain ⟨kind, written⟩ := (Token.word_open rfl).1 word
    have clear := known.numbers token inside kind entry ((longestFirst_perm columns).subset among)
    rw [written, String.toList_ofList] at clear
    exact clear
  · intro piece mem
    have proper := expr.proper_pieces piece mem
    cases piece with
    | between word =>
      rw [Piece.isProper, decide_eq_true_eq] at proper
      exact proper
    | reference operand => exact (known.reference laid layout words mem).2.placed

theorem Known.outcome (known : Known columns text expr) :
    ∃ ending spots, Outcome columns text expr ending spots := by
  obtain ⟨ending, lexemes, layout, readable⟩ := known.readable
  have suits := known.suits
  have perm := longestFirst_perm columns
  have keys : ∀ entry ∈ longestFirst columns,
      IsKey entry.1 ∨ Unseen text.toList entry.1.toList :=
    fun entry mem => suits.keys entry (perm.subset mem)
  have targets : ∀ entry ∈ longestFirst columns, IsTarget entry.2 :=
    fun entry mem => suits.targets entry (perm.subset mem)
  obtain ⟨spots, arrangement⟩ := exists_arrangement suits.renames keys readable
  have written : text.toList = shown asWritten ending spots := by
    rw [arrangement.text, layout]
  have result := substitute_shown (ordered_longestFirst suits.distinct) keys
    (fun entry mem => (targets entry mem).chars.continues) arrangement.arranged written
  rw [← lay_readings] at result
  obtain ⟨clean, tokens⟩ :=
    lexFrom_lay (laid_readings targets arrangement.arranged arrangement.apart) Text.Place.start
  rw [← result] at clean tokens
  refine ⟨ending, spots, arrangement.arranged, arrangement.apart, ?_, ?_, clean, tokens⟩
  · rw [layout]
    exact arrangement.spaced
  · rw [arrangement.words]
    exact (parse_sound known.parsed).2.replace columns.names_rename

/-- Columns that are read one by one, as names, take the place of their references. -/
theorem Outcome.parse_substitute (outcome : Outcome columns text expr ending spots)
    (same : readings ((longestFirst columns).map (·.2)) spots =
      spots.map (Spot.lexeme ((longestFirst columns).map (·.2)))) :
    parse (substitute columns text) = .ok (some (expr.replace columns.rename)) := by
  refine parse_complete outcome.clean ?_
  rw [outcome.tokens, same]
  exact outcome.spelled

/-- A condition that holds all that is asked of it before columns are put into it. -/
structure Resolvable (columns : Columns) (text : String) (expr : Expr) : Prop
    extends Known columns text expr where
  named : ∀ entry ∈ columns, Kind.ofWord entry.2 = .identifier
  apart : CallsApart text.toList

/-- Putting columns into a condition gives the text of the condition with its references renamed. -/
theorem Resolvable.parse_substitute (resolvable : Resolvable columns text expr) :
    parse (substitute columns text) = .ok (some (expr.replace columns.rename)) := by
  obtain ⟨ending, spots, outcome⟩ := resolvable.toKnown.outcome
  have named : ∀ entry ∈ longestFirst columns, Kind.ofWord entry.2 = .identifier :=
    fun entry mem => resolvable.named entry ((longestFirst_perm columns).subset mem)
  refine outcome.parse_substitute ?_
  rw [readings_of_spaced outcome.arranged (outcome.spaced resolvable.apart)]
  exact map_reading outcome.arranged named

/-- Renamed references are columns. -/
theorem Known.references_replace (known : Known columns text expr) :
    ∀ reference ∈ (expr.replace columns.rename).references,
      ∃ column ∈ columns.targets, reference = .identifier column := by
  obtain ⟨ending, lexemes, layout, readable⟩ := known.readable
  intro reference mem
  rw [Expr.references_eq, Expr.pieces_replace columns.names_rename, List.mem_flatMap] at mem
  obtain ⟨_, isRenamed, mem⟩ := mem
  obtain ⟨piece, isPiece, rfl⟩ := List.mem_map.1 isRenamed
  cases piece with
  | between word => cases mem
  | reference operand =>
    obtain ⟨stands, holds⟩ := known.reference readable.laid layout readable.words isPiece
    obtain ⟨column, target, renamed⟩ := known.suits.rename_target stands holds
    rw [Piece.replace, renamed, Piece.references, Operand.references, List.mem_singleton] at mem
    exact ⟨column, target, mem⟩

/-- A text is read as a condition that is spelled with its words. -/
theorem parse_of_words {words : List Word}
    (spelled : expr.Spelled words) (clean : (lex text).errors = [])
    (same : (lex text).tokens.map Token.word = wordsOf expr.pieces) :
    parse text = .ok (some expr) := by
  refine parse_complete clean ?_
  rw [same, ← spelled.words_eq]
  exact spelled

/-- A text that is read as a condition is not blank. -/
theorem not_blank_of_parse (parsed : parse text = .ok (some expr)) :
    Text.isBlankText text = false := by
  cases blank : Text.isBlankText text with
  | false => rfl
  | true =>
    obtain ⟨_, exprs, _, spell⟩ := parse_sound parsed
    have same := lexFrom_blank (List.all_eq_true.1 blank) Text.Place.start []
    rw [List.append_nil] at same
    refine absurd ?_ spell.words_ne_nil
    rw [lex, same, lexFrom]
    rfl

theorem checkReferences_eq_ok {references : List Reference} :
    checkReferences columns references = .ok () ↔
      ∀ reference ∈ references, columns.knows reference = true := by
  have none : (references.filter (!columns.knows ·)).isEmpty = true ↔
      ∀ reference ∈ references, columns.knows reference = true := by
    simp [List.filter_eq_nil_iff]
  rw [← none, checkReferences]
  constructor
  · intro checked
    split at checked
    · next empty => exact empty
    · split at checked <;> cases checked
  · intro empty
    rw [if_pos empty]

/-- A condition that is resolvable is resolved, with columns in place of its references. -/
theorem Resolvable.resolve_eq (resolvable : Resolvable columns text expr) :
    resolve columns text = .ok (substitute columns text) := by
  have unquoted : (text.toList.any fun c => c = '\'' || c = '"') = false := by
    rw [List.any_eq_false]
    intro c mem
    simpa using resolvable.unquoted c mem
  have known := checkReferences_eq_ok.2 resolvable.known
  rw [resolve, not_blank_of_parse resolvable.parsed, unquoted, resolvable.parsed]
  simp only [known, resolvable.parse_substitute]
  rfl

end

end TelemetryQuery.Having
