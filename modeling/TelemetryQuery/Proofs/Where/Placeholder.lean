import TelemetryQuery.Proofs.Filter.Printer
import TelemetryQuery.Proofs.Filter.Token
import TelemetryQuery.Proofs.Where.Binding
/- The placeholders of a compiled filter are those of its values, in the order they were bound. -/
namespace TelemetryQuery.Where

open TelemetryQuery.Field (Key Catalog)
open TelemetryQuery.Filter (KeyRef Test Atom Term Parameter Phrase Spells Word KeyTail)
open TelemetryQuery.Sql (Fragment Script Glyph)

variable {ref : KeyRef} {keys : List Key} {connective : String}

/-- No known field, and not the field of searches, has a question mark in its name. -/
def Options.PlainNames (options : Options) : Prop :=
  ∀ key ∈ options.catalog.keys ++ options.fullText.toList, '?' ∉ key.name.toList

instance (options : Options) : Decidable options.PlainNames :=
  inferInstanceAs (Decidable (∀ key ∈ _, _))

theorem ne_of_class {kind : Char → Bool} {c d : Char} (outside : kind d = false)
    (within : kind c = true) : d ≠ c := by
  rintro rfl
  cases outside.symm.trans within

/-- Keys hold no question marks. -/
theorem keyTail_plain {text : List Char} (tail : KeyTail text) : '?' ∉ text := by
  induction tail with
  | nil => simp
  | @char c text continues _ ih =>
    have differs : '?' ≠ c := ne_of_class (by decide +kernel) continues
    simp [differs, ih]
  | @part c text starts _ ih =>
    have differs : '?' ≠ c := by
      rcases Bool.or_eq_true_iff.1 starts with starts | digit
      · exact ne_of_class (by decide +kernel) starts
      · exact ne_of_class (by decide) digit
    simp [differs, ih]
  | array _ ih => simp [ih]
  | each _ ih => simp [ih]

theorem keyRef_plain (whole : ref.word.Whole) : '?' ∉ ref.text.toList := by
  obtain ⟨⟨c, tail, text, starts, rest⟩, _⟩ := Filter.runAt_key_iff.1 (whole rfl)
  have text : ref.text.toList = c :: tail := text
  have differs : '?' ≠ c := ne_of_class (by decide +kernel) starts
  simp [text, differs, keyTail_plain rest]

/-- The name of a field is part of the text that names it. -/
theorem name_plain {text : String} (plain : '?' ∉ text.toList) :
    '?' ∉ (Key.ofText text).name.toList := by
  obtain ⟨context, rest, contextOf, plainRest⟩ : ∃ context rest,
      Key.splitContext text.toList = (context, rest) ∧ '?' ∉ rest := by
    rcases Key.splitContext_cases text.toList with ⟨context, head, rest, split, _, _, contextOf⟩ |
      contextOf
    · rw [split] at plain
      exact ⟨context, rest, contextOf, by simp_all⟩
    · exact ⟨_, _, contextOf, plain⟩
  rcases Key.splitType_cases rest with ⟨type, stem, tail, rfl, _, _, typeOf⟩ | typeOf
  · rw [Key.ofText_eq contextOf typeOf, String.toList_ofList]
    exact fun mem => plainRest (List.mem_append_left _ mem)
  · rwa [Key.ofText_eq contextOf typeOf, String.toList_ofList]

theorem mem_keys_of_mem_find {catalog : Catalog} {name : String} {key : Key}
    (mem : key ∈ catalog.find name) : key ∈ catalog.keys := by
  rw [Catalog.find] at mem
  cases found : catalog.lookup name with
  | none => simp [found] at mem
  | some keys =>
    rw [found, Option.getD_some] at mem
    obtain ⟨before, after, rfl, _⟩ := List.lookup_eq_some_iff.1 found
    simp [Catalog.keys, mem]

/-- An outcome with no question marks but its placeholders. -/
def Outcome.Plain (outcome : Outcome) : Prop :=
  ∀ predicate ∈ outcome.predicate, predicate.fragment.Plain

theorem Outcome.plain_none (reports : List Diagnostic) : Outcome.Plain ⟨none, reports⟩ := by
  simp [Plain]

theorem Joins.plain {make : List Predicate → Predicate} (joins : Joins make connective)
    (unmarked : '?' ∉ connective.toList) {parts : List Predicate}
    (each : ∀ part ∈ parts, part.fragment.Plain) :
    ∀ predicate ∈ Predicate.join? make parts, predicate.fragment.Plain := by
  match parts with
  | [] => simp [Predicate.join?]
  | [part] => simpa [Predicate.join?] using each
  | first :: second :: rest =>
    rintro predicate ⟨⟩
    rw [joins]
    exact Fragment.plain_connect unmarked (by simpa using each)

theorem Outcome.plain_join {make : List Predicate → Predicate} (joins : Joins make connective)
    (unmarked : '?' ∉ connective.toList) {outcomes : List Outcome}
    (each : ∀ outcome ∈ outcomes, outcome.Plain) : (Outcome.join make outcomes).Plain := by
  refine joins.plain unmarked fun predicate mem => ?_
  obtain ⟨outcome, among, made⟩ := List.mem_filterMap.1 mem
  exact each outcome among predicate made

theorem Outcome.plain_map {outcome : Outcome} {make : Predicate → Predicate} {opening : String}
    (made : ∀ inner,
      (make inner).fragment = .text opening :: inner.fragment ++ [Sql.Piece.text ")"])
    (unmarked : '?' ∉ opening.toList) (plain : outcome.Plain) : (outcome.map make).Plain := by
  intro predicate mem
  obtain ⟨inner, within, rfl⟩ := Option.map_eq_some_iff.1 mem
  rw [made]
  simp [unmarked, plain inner within]

theorem Outcome.plain_negateIf {outcome : Outcome} (negated : Bool) (plain : outcome.Plain) :
    (outcome.negateIf negated).Plain := by
  cases negated with
  | false => exact plain
  | true => exact plain_map (fun _ => by rw [Predicate.fragment]) (by decide) plain

theorem plain_joined {make : List Predicate → Predicate} (joins : Joins make connective)
    (unmarked : '?' ∉ connective.toList) {fragments : List Fragment} (reports : List Diagnostic)
    (each : ∀ fragment ∈ fragments, fragment.Plain) :
    Outcome.Plain ⟨Predicate.join? make (fragments.map .atom), reports⟩ :=
  joins.plain unmarked (by simpa [Predicate.fragment] using each)

theorem conditions_plain (options : Options) (plain : ∀ key ∈ keys, '?' ∉ key.name.toList)
    (operator : Operator) (value : Value) : (options.conditions keys operator value).Plain := by
  unfold Options.conditions
  split
  · next fragments found =>
    have each : ∀ fragment ∈ fragments, fragment.Plain := fun fragment mem =>
      have ⟨key, among, ok⟩ := mem_of_mapM_ok found fragment mem
      (Schema.Table.condition_written ok).2 (plain key among)
    cases operator.isNegative with
    | true => exact plain_joined joins_all (by decide) [] each
    | false => exact plain_joined joins_any (by decide) [] each
  · exact Outcome.plain_none _

theorem tokenConditions_plain (token : Option Value) (plain : ∀ key ∈ keys, '?' ∉ key.name.toList) :
    ∀ fragment ∈ (tokenConditions token keys).1, fragment.Plain := by
  induction keys with
  | nil => simp [tokenConditions]
  | cons key keys ih =>
    obtain ⟨plainKey, plainRest⟩ := List.forall_mem_cons.1 plain
    unfold tokenConditions
    dsimp only
    split
    · exact List.forall_mem_cons.2 ⟨by simp [plainKey], ih plainRest⟩
    · simp

theorem arrayConditions_plain (function : Filter.Function) (value : Value)
    (plain : ∀ key ∈ keys, '?' ∉ key.name.toList) :
    ∀ fragment ∈ (arrayConditions function value keys).1, fragment.Plain := by
  induction keys with
  | nil => simp [arrayConditions]
  | cons key keys ih =>
    obtain ⟨plainKey, plainRest⟩ := List.forall_mem_cons.1 plain
    have plainFunction : '?' ∉ function.text.toList := by cases function <;> decide
    unfold arrayConditions
    split
    · refine List.forall_mem_cons.2 ⟨?_, ih plainRest⟩
      simp [plainFunction, Schema.Table.bodyField_plain plainKey]
    · simp

/-- The outcomes of a part of an expression. -/
def Options.outcomes (options : Options) (skipResource : Bool) : Phrase → List Outcome
  | .term term => [options.term skipResource term]
  | .terms terms => options.terms skipResource terms
  | .branches branches => options.branches skipResource branches

section Plain

variable {options : Options} (plain : options.PlainNames)

include plain

theorem find_plain (name : String) :
    ∀ key ∈ options.catalog.find name, '?' ∉ key.name.toList := fun key mem =>
  plain key (List.mem_append_left _ (mem_keys_of_mem_find mem))

theorem agreeing_plain {key : Key} (plainKey : '?' ∉ key.name.toList) :
    ∀ known ∈ agreeing options.catalog key, '?' ∉ known.name.toList := by
  intro known mem
  -- A key of the body is not looked up: its name comes from the filter text.
  rcases List.mem_append.1 mem with found | itself
  · exact find_plain plain _ known (List.mem_filter.1 found).1
  · split at itself
    · rwa [List.mem_singleton.1 itself]
    · cases itself

theorem candidates_plain (plainRef : '?' ∉ ref.text.toList) :
    ∀ key ∈ (options.candidates ref).keys, '?' ∉ key.name.toList := by
  have agree := agreeing_plain plain (name_plain plainRef)
  unfold Options.candidates
  dsimp only
  split
  · split
    · simp
    · exact find_plain plain _
  · next known same => rwa [same] at agree
  · next known _ _ =>
    intro key mem
    split at mem
    · exact agree key (List.mem_filter.1 mem).1
    · exact agree key mem

theorem comparison_plain (skipResource : Bool) (plainRef : '?' ∉ ref.text.toList) (test : Test) :
    (options.comparison skipResource ref test).Plain := by
  have candidates := candidates_plain plain plainRef
  unfold Options.comparison
  dsimp only
  have keys : ∀ key ∈ (if skipResource = true then
      (options.candidates ref).keys.filter (·.context != .resource)
      else (options.candidates ref).keys), '?' ∉ key.name.toList := by
    intro key mem
    split at mem
    · exact candidates key (List.mem_filter.1 mem).1
    · exact candidates key mem
  generalize (if skipResource = true then _ else _) = kept at keys ⊢
  split
  · exact Outcome.plain_none _
  · cases operandOf options.bindings test with
    | dropped => exact Outcome.plain_none _
    | emptyVariable name => exact Outcome.plain_none _
    | value value => exact conditions_plain options keys test.operator value

theorem call_plain (function : Filter.Function) {parameters : List Parameter}
    (plainRefs : ∀ ref, .key ref ∈ parameters → '?' ∉ ref.text.toList) :
    (options.call function parameters).Plain := by
  unfold Options.call
  split
  · exact Outcome.plain_none _
  · split
    · next ref first more =>
      have candidates := candidates_plain plain (plainRefs ref (by simp))
      cases function with
      | hasToken => exact plain_joined joins_any (by decide) _ (tokenConditions_plain _ candidates)
      | has | hasAny | hasAll =>
        exact plain_joined joins_any (by decide) _ (arrayConditions_plain _ _ candidates)
    · exact Outcome.plain_none _
    · exact Outcome.plain_none _

theorem search_plain (text : String) : (options.search text).Plain := by
  unfold Options.search
  split
  · exact Outcome.plain_none _
  · split
    · exact Outcome.plain_none _
    · next key column =>
      split
      · next fragment found =>
        have plainName := plain key (List.mem_append_right _ (by simp [column]))
        have plainFragment := (Schema.Table.condition_written found).2 plainName
        simpa [Outcome.Plain, Predicate.fragment] using plainFragment
      · exact Outcome.plain_none _

theorem atom_plain (skipResource : Bool) {atom : Atom} (whole : ∀ word ∈ atom.words, word.Whole) :
    (options.atom skipResource atom).Plain := by
  cases atom with
  | comparison ref test =>
    exact comparison_plain plain skipResource (keyRef_plain (whole _ (by simp [Atom.words]))) test
  | call function parameters =>
    refine call_plain plain function fun ref mem => keyRef_plain (whole _ ?_)
    have own : ref.word ∈ Parameter.words (.key ref) := List.mem_singleton.2 rfl
    have among := Filter.mem_commaWords (List.mem_map_of_mem mem) own
    simp [Atom.words, among]
  | quotedText raw => exact search_plain plain _
  | freeText text => exact search_plain plain _
  | bareKey ref => exact search_plain plain _
  | bareValue literal => exact search_plain plain _

/-- The outcomes of what is spelled by whole words are plain. -/
theorem spells_plain (skipResource : Bool) {phrase : Phrase} {words : List Word}
    (spell : Spells phrase words) (whole : ∀ word ∈ words, word.Whole) :
    ∀ outcome ∈ options.outcomes skipResource phrase, outcome.Plain := by
  induction spell with
  | @atom negated atom proper =>
    have plainAtom := atom_plain plain skipResource (List.forall_mem_append.1 whole).2
    intro outcome mem
    rw [List.mem_singleton.1 mem, Options.term]
    exact Outcome.plain_negateIf negated plainAtom
  | @group negated branches words _ ih =>
    have inner := Outcome.plain_join joins_any (by decide)
      (ih fun word mem => whole word (by simp [mem]))
    have bracketed : ∀ inner : Predicate,
        Predicate.fragment (.group inner) = .text "(" :: inner.fragment ++ [Sql.Piece.text ")"] :=
      fun _ => by rw [Predicate.fragment]
    intro outcome mem
    rw [List.mem_singleton.1 mem, Options.term]
    exact Outcome.plain_negateIf negated (Outcome.plain_map bracketed (by decide) inner)
  | lone _ ih =>
    rw [Options.outcomes, Options.terms, Options.terms]
    exact ih whole
  | joined _ _ ihFirst ihRest | adjacent _ _ ihFirst ihRest =>
    have first := List.forall_mem_singleton.1 (ihFirst fun word mem => whole word (by simp [mem]))
    rw [Options.outcomes, Options.terms]
    exact List.forall_mem_cons.2 ⟨first, ihRest fun word mem => whole word (by simp [mem])⟩
  | only _ ih =>
    have joined := Outcome.plain_join joins_all (by decide) (ih whole)
    rw [Options.outcomes, Options.branches, Options.branches]
    exact List.forall_mem_singleton.2 joined
  | either _ _ ihFirst ihRest =>
    have first := Outcome.plain_join joins_all (by decide)
      (ihFirst fun word mem => whole word (by simp [mem]))
    rw [Options.outcomes, Options.branches]
    exact List.forall_mem_cons.2 ⟨first, ihRest fun word mem => whole word (by simp [mem])⟩

theorem query_plain (skipResource : Bool) {query : Filter.Query} {words : List Word}
    (spelled : query.Spelled words) (whole : ∀ word ∈ words, word.Whole) :
    (options.query skipResource query).Plain := by
  cases query with
  | none => exact Outcome.plain_none _
  | some branches =>
    exact Outcome.plain_join joins_any (by decide) (spells_plain plain skipResource spelled whole)

theorem compile_plain {text : String} {clause : Clause} (ok : compile options text = .ok clause) :
    clause.fragment.Plain := by
  unfold compile at ok
  dsimp only at ok
  split at ok
  · cases ok
  · next accepted =>
    have parsed : Filter.parse text = .ok (Filter.read text).query :=
      Filter.parse_eq_ok.2 ⟨by simpa using accepted, rfl⟩
    obtain ⟨words, spelled, whole⟩ := Filter.parse_spelled parsed
    have plainQuery := query_plain plain (options.skipResource && !(Filter.read text).hasOr)
      spelled whole
    split at ok
    · cases ok
    · cases ok
      generalize options.query _ _ = outcome at plainQuery ⊢
      dsimp only
      cases made : outcome.predicate with
      | none => simp [Fragment.ofText]
      | some predicate => exact plainQuery predicate made

end Plain

/-- The question marks of a compiled filter are as many as its values. If placeholders are numbered
when their values are bound, then what is read as placeholders, from left to right, are those of
the first value, the second and so on to the last; no other value was bound. -/
theorem placeholders_aligned {options : Options} {text : String} {clause : Clause}
    (plain : options.PlainNames) (ok : compile options text = .ok clause) :
    clause.sql.toList.count '?' = clause.arguments.length ∧
    ∃ script, compileBound options text = .ok ⟨script, clause.arguments, clause.warnings⟩ ∧
      script.sql = clause.sql ∧
      script.placeholders = (List.range clause.arguments.length).map .hole := by
  have plainClause := compile_plain plain ok
  refine ⟨Fragment.count_sql plainClause, clause.fragment.mark 0, ?_,
    Fragment.sql_mark 0 clause.fragment, ?_⟩
  · rw [compileBound_eq, ok]
    rfl
  · rw [Fragment.placeholders_mark plainClause 0, List.range_eq_range']
    rfl

/-- Terms on an unknown field are dropped, a field is stored in two places, and the values are
question marks themselves. -/
theorem placeholders_aligned_dropped :
    let options : Options :=
      { catalog := .ofKeys
          [{ name := "d", context := .attributes, type := .number },
            { name := "d", context := .attributes, type := .string }]
        ignoreUnknown := true }
    let text := "x = 1 AND NOT (d IN ['?', 'b'] OR x = 2) AND has(body.tags, '?')"
    let sql :=
      "(NOT ((((attributes_number['d'] IN (?, ?) AND mapContains(attributes_number, 'd') = ?) " ++
      "OR (attributes_string['d'] IN (?, ?) AND mapContains(attributes_string, 'd') = ?)))) AND " ++
      "has(JSON_VALUE(body, '$.tags'), ?))"
    options.PlainNames ∧ ∃ clause, compile options text = .ok clause ∧ clause.sql = sql ∧
      clause.sql.toList.count '?' = clause.arguments.length ∧
      ∃ script, compileBound options text = .ok ⟨script, clause.arguments, clause.warnings⟩ ∧
        script.sql = clause.sql ∧
        script.placeholders = (List.range clause.arguments.length).map .hole := by
  intro options text sql
  have plain : options.PlainNames := by decide +kernel
  have shown : (compile options text).toOption.map Clause.sql = some sql := by decide +kernel
  cases ok : compile options text with
  | error failure =>
    rw [ok] at shown
    cases shown
  | ok clause =>
    rw [ok] at shown
    exact ⟨plain, clause, rfl, Option.some.inj shown, placeholders_aligned plain ok⟩

end TelemetryQuery.Where
