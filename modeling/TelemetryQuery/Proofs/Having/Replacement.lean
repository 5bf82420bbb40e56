import TelemetryQuery.Proofs.Having.Resolution
/- Columns put into the text of a condition are put into its tree. -/
namespace TelemetryQuery.Having

variable {words : List Word}

/-- What a word adds to the comparisons of a condition less the words that join them. -/
def Kind.weight : Kind → Int
  | .comparison _ => 1
  | .and | .or => -1
  | _ => 0

def weight : List Word → Int
  | [] => 0
  | word :: words => word.kind.weight + weight words

@[simp]
theorem weight_nil : weight [] = 0 :=
  rfl

@[simp]
theorem weight_cons (word : Word) (words : List Word) :
    weight (word :: words) = word.kind.weight + weight words :=
  rfl

@[simp]
theorem weight_append (first second : List Word) :
    weight (first ++ second) = weight first + weight second := by
  induction first with
  | nil => exact (Int.zero_add _).symm
  | cons word words ih => rw [List.cons_append, weight_cons, weight_cons, ih, Int.add_assoc]

def Phrase.weight : Phrase → Int
  | .primary _ | .conjuncts _ | .branches _ => 1
  | _ => 0

/-- A condition has one comparison more than words that join. -/
theorem Spells.weight_eq {phrase : Phrase} (spell : Spells phrase words) :
    weight words = phrase.weight := by
  induction spell with
  | number | quoted | identifier | bareCall => rfl
  | signed _ ih | paren _ ih | call _ ih | lastArgument _ ih | group _ ih | not _ ih =>
    simpa [Phrase.weight, Kind.weight] using ih
  | ofFactor _ ih | ofTerm _ ih | lone _ ih | only _ ih => exact ih
  | argument _ _ ihFirst ihRest | product _ _ _ ihFirst ihRest | sum _ _ _ ihFirst ihRest
  | comparison _ _ ihFirst ihRest | both _ _ ihFirst ihRest | either _ _ ihFirst ihRest =>
    simp [Phrase.weight, Kind.weight] at ihFirst ihRest ⊢
    omega

theorem Expr.Spelled.weight_eq {expr : Expr} (spelled : expr.Spelled words) : weight words = 1 := by
  obtain ⟨_, _, spell⟩ := spelled
  exact spell.weight_eq

/-- Words without truth values, in which a bracket opens after each negation. -/
def Guarded : List Word → Prop
  | [] => True
  | word :: rest => word.kind ≠ .bool ∧
      (word.kind = .not → ∃ next ∈ rest.head?, next.kind = .lparen) ∧ Guarded rest

theorem guarded_cons {word : Word} {rest : List Word} (value : word.kind ≠ .bool)
    (other : word.kind ≠ .not) (guarded : Guarded rest) : Guarded (word :: rest) :=
  ⟨value, fun negates => absurd negates other, guarded⟩

theorem Guarded.append {first second : List Word} (guarded : Guarded first)
    (others : Guarded second) : Guarded (first ++ second) := by
  induction first with
  | nil => exact others
  | cons word rest ih =>
    obtain ⟨value, opens, later⟩ := guarded
    refine ⟨value, fun negates => ?_, ih later⟩
    obtain ⟨next, head, opening⟩ := opens negates
    exact ⟨next, List.mem_head?_append_of_mem_head? head, opening⟩

theorem Guarded.between {kind : Kind} {first second : List Word} (guarded : Guarded first)
    (others : Guarded second) (value : kind ≠ .bool) (other : kind ≠ .not) :
    Guarded (first ++ .fixed kind :: second) :=
  guarded.append (guarded_cons value other others)

theorem Spells.guarded {phrase : Phrase} (spell : Spells phrase words) : Guarded words := by
  induction spell with
  | number | quoted | identifier => exact guarded_cons nofun nofun trivial
  | bareCall =>
    exact guarded_cons nofun nofun (guarded_cons nofun nofun (guarded_cons nofun nofun trivial))
  | signed _ ih => exact guarded_cons nofun nofun ih
  | call _ ih => exact guarded_cons nofun nofun (guarded_cons nofun nofun ih)
  | lastArgument _ ih => exact ih.between trivial nofun nofun
  | paren _ ih | group _ ih => exact guarded_cons nofun nofun (ih.between trivial nofun nofun)
  | not _ ih =>
    exact ⟨nofun, fun _ => ⟨_, rfl, rfl⟩, guarded_cons nofun nofun (ih.between trivial nofun nofun)⟩
  | ofFactor _ ih | ofTerm _ ih | lone _ ih | only _ ih => exact ih
  | argument _ _ ihFirst ihRest | product _ _ _ ihFirst ihRest | sum _ _ _ ihFirst ihRest
  | comparison _ _ ihFirst ihRest | both _ _ ihFirst ihRest | either _ _ ihFirst ihRest =>
    exact ihFirst.between ihRest nofun nofun

theorem Expr.Spelled.guarded {expr : Expr} (spelled : expr.Spelled words) : Guarded words := by
  obtain ⟨_, _, spell⟩ := spelled
  exact spell.guarded

theorem lower_of_joins {word : String} (joins : Kind.ofWord word ∈ [.and, .or]) :
    Text.lower word ∈ ["and", "or"] := by
  revert joins
  rw [Kind.ofWord]
  split <;> simp_all

/-- A word that joins conditions is none with a column before it. -/
theorem ofWord_append {column chars : List Char} (nonempty : column ≠ [])
    (joins : Kind.ofWord (String.ofList chars) ∈ [.and, .or]) :
    Kind.ofWord (String.ofList (column ++ chars)) = .identifier := by
  have ends : ∀ word ∈ ["and", "or", "not", "true", "false"], ∀ last ∈ ["and", "or"],
      last.toList <:+ word.toList → word.toList.length = last.toList.length := by decide
  by_contra reserved
  have same := ends _ (reserved_mem reserved) _ (lower_of_joins joins)
  simp only [Text.lower, String.toList_ofList, List.map_append, List.length_append,
    List.suffix_append, forall_const] at same
  have positive := List.length_pos_iff.2 nonempty
  rw [List.length_map] at same
  omega

theorem weight_of_joins {kind : Kind} (joins : kind ∈ [.and, .or]) : kind.weight = -1 := by
  rcases List.mem_pair.1 joins with rfl | rfl <;> rfl

/-- Lexemes that are others or weigh less than they do. -/
def Lighter (first second : List Lexeme) : Prop :=
  first = second ∨ weight (first.map Lexeme.word) < weight (second.map Lexeme.word)

namespace Lighter

variable {first second : List Lexeme}

theorem le (lighter : Lighter first second) :
    weight (first.map Lexeme.word) ≤ weight (second.map Lexeme.word) := by
  rcases lighter with rfl | less
  · exact Int.le_refl _
  · exact Int.le_of_lt less

theorem cons (lighter : Lighter first second) (lexeme : Lexeme) :
    Lighter (lexeme :: first) (lexeme :: second) := by
  rcases lighter with rfl | less
  · exact .inl rfl
  · exact .inr (Int.add_lt_add_left less _)

/-- Lighter lexemes of one condition are the same. -/
theorem eq_of_spelled (lighter : Lighter first second) {expr other : Expr}
    (spelled : expr.Spelled (first.map Lexeme.word))
    (spelledOther : other.Spelled (second.map Lexeme.word)) : first = second := by
  refine lighter.resolve_right ?_
  rw [spelled.weight_eq, spelledOther.weight_eq]
  exact Int.lt_irrefl 1

end Lighter

section Readings

variable {table : List (String × String)} {ending : List Char} {spots : List Spot}

/-- Columns that are names are read as such, or a word that joins is lost. -/
theorem readings_of_named (targets : ∀ entry ∈ table, IsTarget entry.2)
    (named : ∀ entry ∈ table, Kind.ofWord entry.2 = .identifier)
    (arranged : Arranged table ending spots) (apart : Apart spots) :
    Lighter (spots.map (Spot.lexeme (table.map (·.2)))) (readings (table.map (·.2)) spots) := by
  fun_induction readings (table.map (·.2)) spots with
  | case1 => exact .inl rfl
  | case2 gap i operand raw chars rest ih =>
    obtain ⟨fits, _, others⟩ := arranged
    obtain ⟨follows, later⟩ := List.isChain_cons.1 apart
    have joins : Kind.ofWord (String.ofList chars) ∈ [.and, .or] := by
      simpa [Slot.joins] using follows _ rfl rfl
    obtain ⟨c, more, split, _⟩ := (nameChars_filled targets fits.proper).cons
    have nonempty : filled (table.map (·.2)) i raw ≠ [] := by
      rw [split]
      exact List.cons_ne_nil c more
    have joined := ofWord_append nonempty joins
    have tail := (ih others (List.isChain_cons.1 later).2).le
    refine .inr ?_
    simp only [List.map_cons, weight_cons, Spot.lexeme, Lexeme.word, Word.ofText_kind, joined,
      weight_of_joins joins]
    omega
  | case3 spot rest _ ih =>
    rw [arranged.1.reading_eq named, List.map_cons]
    exact (ih arranged.2 (List.isChain_cons.1 apart).2).cons _

/-- A spot is read as a name, or is a column that is a reserved word. -/
theorem Spot.reading_cases (columns : List String) (spot : Spot) :
    spot.reading columns = spot.lexeme columns ∨
      spot.slot.isReference = true ∧ (spot.lexeme columns).kind = .identifier ∧
        (spot.reading columns).kind ∈ [.and, .or, .not, .bool] := by
  obtain ⟨gap, slot⟩ := spot
  cases slot with
  | reference i operand raw =>
    have isWord := Kind.ofWord_isWord (String.ofList (filled columns i raw))
    rw [Spot.reading, Spot.lexeme]
    generalize Kind.ofWord (String.ofList (filled columns i raw)) = kind at isWord
    cases kind with
    | identifier => exact .inl rfl
    | and | or | not | bool => exact .inr ⟨rfl, rfl, by simp⟩
    | _ => cases isWord
  | _ => exact .inl rfl

theorem Slot.joins_kind {slot : Slot} (joins : slot.joins = true) (gap : List Char)
    (columns : List String) : (Spot.reading columns ⟨gap, slot⟩).kind ≠ .lparen := by
  cases slot with
  | mark kind chars => simpa [Slot.joins, Spot.reading, Spot.lexeme] using joins
  | word chars =>
    have isWord := Kind.ofWord_isWord (String.ofList chars)
    intro opening
    rw [show Kind.ofWord (String.ofList chars) = .lparen from opening] at isWord
    cases isWord
  | _ => cases joins

/-- Columns that are read one by one are read as names, or a word that joins is added. -/
theorem readings_of_guarded (apart : Apart spots) (columns : List String)
    (guarded : Guarded ((spots.map (Spot.reading columns)).map Lexeme.word)) :
    Lighter (spots.map (Spot.reading columns)) (spots.map (Spot.lexeme columns)) := by
  induction spots with
  | nil => exact .inl rfl
  | cons spot rest ih =>
    obtain ⟨value, opens, later⟩ := guarded
    obtain ⟨follows, others⟩ := List.isChain_cons.1 apart
    have tail := ih others later
    rw [List.map_cons, List.map_cons]
    rcases spot.reading_cases columns with same | ⟨reference, name, reserved⟩
    · rw [same]
      exact tail.cons _
    · have joins : (spot.reading columns).kind ∈ [.and, .or] := by
        simp only [List.mem_cons, List.not_mem_nil, or_false] at reserved ⊢
        rcases reserved with joins | joins | negates | isValue
        · exact .inl joins
        · exact .inr joins
        · -- the bracket that opens after a negation does not open after a reference
          obtain ⟨_, head, opening⟩ := opens negates
          cases rest with
          | nil => cases head
          | cons next _ =>
            obtain rfl := Option.some.inj head
            exact absurd opening (Slot.joins_kind (follows next rfl reference) next.gap columns)
        · exact absurd isValue value
      have less :
          (spot.reading columns).word.kind.weight < (spot.lexeme columns).word.kind.weight := by
        rw [Lexeme.word, Lexeme.word, Word.ofText_kind, Word.ofText_kind, weight_of_joins joins,
          name]
        decide
      exact .inr (Int.add_lt_add_of_lt_of_le less tail.le)

end Readings

section Resolved

variable {columns : Columns} {text resolved : String} {expr : Expr}

theorem lex_of_parse_none (parsed : parse text = .ok none) :
    (lex text).tokens = [] ∧ (lex text).errors = [] := by
  unfold parse at parsed
  dsimp only at parsed
  split at parsed
  · next empty =>
    split at parsed
    · next clean => exact ⟨List.isEmpty_iff.1 empty, List.isEmpty_iff.1 clean⟩
    · cases parsed
  · split at parsed <;> cases parsed

/-- A text that holds no condition is blank. -/
theorem blank_of_parse_none (parsed : parse text = .ok none) : Text.isBlankText text = true := by
  obtain ⟨empty, clean⟩ := lex_of_parse_none parsed
  obtain ⟨ending, lexemes, layout, laid, words⟩ := laid_of_lexFrom .start text.toList clean
  rw [show (lexFrom .start text.toList).tokens = [] from empty] at words
  obtain rfl := List.map_eq_nil_iff.1 words.symm
  refine List.all_eq_true.2 fun c mem => laid c ?_
  rw [layout] at mem
  exact mem

/-- A text that is resolved has no quotes and is read before and after; its references are known. -/
theorem resolve_eq_ok (ok : resolve columns text = .ok resolved) (nonempty : resolved ≠ "") :
    ∃ expr outcome, Unquoted text.toList ∧ parse text = .ok (some expr) ∧
      (∀ reference ∈ expr.references, columns.knows reference = true) ∧
      resolved = substitute columns text ∧ parse (substitute columns text) = .ok outcome := by
  unfold resolve at ok
  simp only [bind, pure, Except.bind, Except.pure, throw, throwThe, MonadExceptOf.throw] at ok
  split at ok
  · cases ok
    exact absurd rfl nonempty
  next solid =>
  split at ok
  · cases ok
  next unquoted =>
  split at ok
  · cases ok
  · next parsed => exact absurd (blank_of_parse_none parsed) solid
  next expr parsed =>
  split at ok
  · cases ok
  next checked =>
  split at ok
  · cases ok
  next outcome read =>
  cases ok
  refine ⟨expr, outcome, fun c mem quote => unquoted ?_, parsed, checkReferences_eq_ok.1 checked,
    rfl, read⟩
  rw [List.any_eq_true]
  exact ⟨c, mem, by simpa using quote⟩

/-- What is read after columns are put into a condition is a condition, if it is read at all. -/
theorem Outcome.read_some {ending : List Char} {spots : List Spot}
    (outcome : Outcome columns text expr ending spots) {result : Option Expr}
    (read : parse (substitute columns text) = .ok result) :
    ∃ other : Expr, other.Spelled
      ((readings ((longestFirst columns).map (·.2)) spots).map Lexeme.word) := by
  rw [← outcome.tokens]
  cases result with
  | some other => exact ⟨other, (parse_sound read).2⟩
  | none =>
    have tokens := outcome.tokens
    rw [(lex_of_parse_none read).1] at tokens
    have empty : spots = [] := by
      have none := List.map_eq_nil_iff.1 tokens.symm
      revert none
      fun_cases readings <;> simp
    obtain ⟨_, _, spell⟩ := outcome.spelled
    exact absurd (by rw [empty]; rfl) spell.words_ne_nil

/-- What is read as a condition after columns are put into one has as many words that join, so all
columns are read one by one, as names. -/
theorem Outcome.readings_eq {ending : List Char} {spots : List Spot}
    (outcome : Outcome columns text expr ending spots) (suits : columns.Suits text.toList)
    (apart : (∀ column ∈ columns.targets, Kind.ofWord column = .identifier) ∨
      CallsApart text.toList)
    {other : Expr} (spelled : other.Spelled
      ((readings ((longestFirst columns).map (·.2)) spots).map Lexeme.word)) :
    readings ((longestFirst columns).map (·.2)) spots =
      spots.map (Spot.lexeme ((longestFirst columns).map (·.2))) := by
  have perm := longestFirst_perm columns
  rcases apart with named | apart
  · have lighter := readings_of_named (fun entry mem => suits.targets entry (perm.subset mem))
      (fun entry mem => named _ (List.mem_map_of_mem (perm.subset mem)))
      outcome.arranged outcome.apart
    exact (lighter.eq_of_spelled outcome.spelled spelled).symm
  · rw [readings_of_spaced outcome.arranged (outcome.spaced apart)] at spelled ⊢
    have lighter := readings_of_guarded outcome.apart _ spelled.guarded
    exact lighter.eq_of_spelled spelled outcome.spelled

/-- Columns put into the text of a condition are put into its tree: each reference that is a key
becomes its column, and all else stays. In numbers no exponent follows the point, where a key would
be found in it; and no column is a reserved word, or no word follows a call directly, where it
would be one with the column. -/
theorem parse_resolve (distinct : columns.references.Nodup)
    (keys : ∀ key ∈ columns.references, IsKey key)
    (targets : ∀ column ∈ columns.targets, IsTarget column)
    (numbers : ∀ token ∈ (lex text).tokens, token.kind = .number →
      ∀ key ∈ columns.references, Clear token.text.toList key)
    (apart : (∀ column ∈ columns.targets, Kind.ofWord column = .identifier) ∨
      CallsApart text.toList)
    (ok : resolve columns text = .ok resolved) (nonempty : resolved ≠ "") :
    ∃ expr, parse text = .ok (some expr) ∧
      parse resolved = .ok (some (expr.replace columns.rename)) := by
  obtain ⟨expr, result, unquoted, parsed, known, rfl, read⟩ := resolve_eq_ok ok nonempty
  have suits : columns.Suits text.toList :=
    ⟨fun entry mem => .inl (keys _ (List.mem_map_of_mem mem)), distinct,
      fun entry mem => targets _ (List.mem_map_of_mem mem)⟩
  have isKnown : Known columns text expr := ⟨suits, unquoted, parsed, known,
    fun token mem number entry among => numbers token mem number _ (List.mem_map_of_mem among)⟩
  obtain ⟨ending, spots, outcome⟩ := isKnown.outcome
  obtain ⟨other, spelled⟩ := outcome.read_some read
  exact ⟨expr, parsed, outcome.parse_substitute (outcome.readings_eq suits apart spelled)⟩

/-- Keys that are parts of other keys, and columns that are keys. -/
theorem parse_resolve_overlapping :
    let columns : Columns :=
      [("count", "v"), ("count()", "w"), ("sum(count())", "count"), ("v", "w")]
    let resolved := "count> w AND NOT (v + w <= 1.5e3 * w)"
    resolve columns "sum( count( ) )> count() AND NOT (count + v <= 1.5e3 * w)" = .ok resolved ∧
      parse resolved = .ok (some (.and [
        .comparison (.identifier "count") .greater (.identifier "w"),
        .not (.comparison (.binary (.identifier "v") .add (.identifier "w")) .lessEq
          (.binary (.number "1.5e3") .multiply (.identifier "w")))])) := by
  intro columns resolved
  have order : longestFirst columns =
      [("sum(count())", "count"), ("count()", "w"), ("count", "v"), ("v", "w")] :=
    longestFirst_eq (by decide +kernel) (by decide +kernel) (by decide +kernel)
  have ok : resolve columns "sum( count( ) )> count() AND NOT (count + v <= 1.5e3 * w)" =
      .ok resolved := by
    rw [resolve, substitute, order]
    decide +kernel
  have keys : ∀ key ∈ columns.references, IsKey key := by
    simp only [columns, Columns.references, List.map_cons, List.map_nil, List.forall_mem_cons]
    exact ⟨⟨.identifier "count", by decide +kernel⟩, ⟨.call "count" [], by decide +kernel⟩,
      ⟨.call "sum" [.call "count" []], by decide +kernel⟩, ⟨.identifier "v", by decide +kernel⟩,
      List.forall_mem_nil _⟩
  have targets : ∀ column ∈ columns.targets, isColumn column = true := by decide +kernel
  obtain ⟨expr, parsed, read⟩ := parse_resolve (by decide +kernel) keys
    (fun column mem => (isColumn_iff.1 (targets column mem)).1) (by decide +kernel)
    (.inl fun column mem => (isColumn_iff.1 (targets column mem)).2) ok (by decide)
  have first : Spells (.primary (.comparison (.call "sum" [.call "count" []]) .greater
      (.call "count" []))) _ :=
    .comparison (.ofTerm (.ofFactor (.call (.lastArgument (.ofTerm (.ofFactor .bareCall))))))
      (.ofTerm (.ofFactor .bareCall))
  have second : Spells (.primary (.comparison (.binary (.identifier "count") .add (.identifier "v"))
      .lessEq (.binary (.number "1.5e3") .multiply (.identifier "w")))) _ :=
    .comparison (.sum rfl (.ofTerm (.ofFactor .identifier)) (.ofFactor .identifier))
      (.ofTerm (.product rfl (.ofFactor .number) .identifier))
  have spelled : Expr.Spelled (.and [_, .not _]) _ :=
    ⟨_, rfl, .only (.both first (.lone (.not (.only (.lone second)))))⟩
  cases parsed.symm.trans (parse_of_words spelled (by decide +kernel) (by decide +kernel))
  have sum : columns.rename (.call "sum" [.call "count" []]) = .identifier "count" :=
    Columns.rename_found (by decide +kernel)
  have call : columns.rename (.call "count" []) = .identifier "w" :=
    Columns.rename_found (by decide +kernel)
  have name : columns.rename (.identifier "count") = .identifier "v" :=
    Columns.rename_found (by decide +kernel)
  have other : columns.rename (.identifier "v") = .identifier "w" :=
    Columns.rename_found (by decide +kernel)
  have column : columns.rename (.identifier "w") = .identifier "w" :=
    Columns.rename_missed (by decide +kernel)
  refine ⟨ok, ?_⟩
  rw [read]
  simp only [collapse, Expr.replace, replaceAll, Operand.replace, sum, call, name, other, column]

/-- A key that is the exponent of a number is found in the number, and changes it. -/
theorem resolve_renames_exponent :
    let columns : Columns := [("e5", "e7")]
    let expr := Expr.comparison (.number "1.e5") .greater (.number "2")
    IsKey "e5" ∧ isColumn "e7" = true ∧ parse "1.e5 > 2" = .ok (some expr) ∧
      resolve columns "1.e5 > 2" = .ok "1.e7 > 2" ∧ expr.replace columns.rename = expr ∧
      parse "1.e7 > 2" ≠ .ok (some expr) := by
  intro columns expr
  have spelled (digits : String) :
      Expr.Spelled (.comparison (.number digits) .greater (.number "2")) _ :=
    ⟨_, rfl,
      .only (.lone (.comparison (.ofTerm (.ofFactor .number)) (.ofTerm (.ofFactor .number))))⟩
  have order : longestFirst columns = [("e5", "e7")] :=
    longestFirst_eq (by decide +kernel) (by decide +kernel) (by decide +kernel)
  have read : parse "1.e7 > 2" = .ok (some (.comparison (.number "1.e7") .greater (.number "2"))) :=
    parse_of_words (spelled "1.e7") (by decide +kernel) (by decide +kernel)
  refine ⟨⟨.identifier "e5", by decide +kernel⟩, by decide +kernel,
    parse_of_words (spelled "1.e5") (by decide +kernel) (by decide +kernel), ?_, ?_, ?_⟩
  · rw [resolve, substitute, order]
    decide +kernel
  · simp only [expr, Expr.replace, Operand.replace]
  · rw [read]
    simp [expr]

end Resolved

end TelemetryQuery.Having
