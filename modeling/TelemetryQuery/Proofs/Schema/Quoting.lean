import TelemetryQuery.Proofs.Field.KeyText
import TelemetryQuery.Proofs.Schema.Atomicity
import TelemetryQuery.Proofs.Text.Quoted
import TelemetryQuery.Sql.Token
/- The names of fields stay inside the literals that they are written in: a reader of SQL finds each
literal closed by its own quote, with the name as its value. -/
namespace TelemetryQuery

/-- An escaped text is read up to the quote behind it, unless that quote is doubled. -/
theorem Sql.quotedText?_escape {rest : List Char} (ends : rest.head? ≠ some '\'')
    (text : List Char) : quotedText? (Text.escape text ++ '\'' :: rest) = some (text, rest) := by
  induction text with
  | nil =>
    change quotedText? ('\'' :: rest) = _
    rw [quotedText?]
    rintro more rfl
    exact ends rfl
  | cons c text ih =>
    rw [Text.escape_cons]
    split
    · next marked =>
      have kept : escapedChar c = c := by
        rcases (by simpa using marked : c = '\\' ∨ c = '\'') with rfl | rfl <;> rfl
      change (quotedText? (Text.escape text ++ '\'' :: rest)).map _ = _
      rw [ih, Option.map_some, kept]
    · next plain =>
      obtain ⟨slash, quote⟩ : c ≠ '\\' ∧ c ≠ '\'' := by simpa using plain
      rw [List.append_assoc, List.singleton_append, quotedText?, ih]
      · rfl
      · exact fun _ same => absurd same quote
      · exact fun same => absurd same quote
      · exact fun _ _ same => absurd same slash
      · exact fun same => absurd same slash

namespace Schema

open TelemetryQuery.Field (Key Context)

/-- A text in which a quote opens a literal: what stands before that quote, the value of the
literal, and what is left of the text behind the quote that closes it. -/
def Quotes (text before value after : String) : Prop :=
  ∃ body, text.toList = before.toList ++ '\'' :: body ∧
    Sql.quotedText? body = some (value.toList, after.toList)

theorem quotes_escapeText (before value : String) {after : String}
    (ends : after.toList.head? ≠ some '\'') :
    Quotes (before ++ "'" ++ escapeText value ++ "'" ++ after) before value after := by
  refine ⟨Text.escape value.toList ++ '\'' :: after.toList, ?_, Sql.quotedText?_escape ends _⟩
  simp [escapeText]

/-- What stands before the first literal of a text, and the value of that literal, are told from
the text. -/
theorem Quotes.unique {text before value after before' value' after' : String}
    (quotes : Quotes text before value after) (quotes' : Quotes text before' value' after')
    (first : '\'' ∉ before.toList) (first' : '\'' ∉ before'.toList) :
    before = before' ∧ value = value' := by
  obtain ⟨body, split, read⟩ := quotes
  obtain ⟨body', split', read'⟩ := quotes'
  have cut := @Text.cutAt?_append _ _ body first
  rw [← split, split', Text.cutAt?_append first'] at cut
  obtain ⟨same, rfl⟩ := Prod.mk.inj (Option.some.inj cut)
  obtain ⟨content, -⟩ := Prod.mk.inj (Option.some.inj (read.symm.trans read'))
  exact ⟨String.toList_injective same.symm, String.toList_injective content⟩

/-- The path of a field inside the body is escaped as a whole. -/
theorem bodyPath_eq (name : String) : bodyPath name = escapeText ("$." ++ name) := by
  refine String.toList_injective ?_
  simp [bodyPath, escapeText, Text.escape]

/-- The map that a field is stored in, if it is stored in one. -/
def mapName (key : Key) : String :=
  match key.context with
  | .resource => "resources_string"
  | .scope => "scope_string"
  | _ => "attributes_" ++ typeName key.type

theorem mapName_unquoted (key : Key) : '\'' ∉ (mapName key).toList := by
  have types : ∀ type, '\'' ∉ ("attributes_" ++ typeName type).toList := by
    intro type
    cases type <;> decide
  unfold mapName
  split
  · decide
  · decide
  · exact types key.type

namespace Table

/-- A field that is stored in a map under its name. -/
structure InMap (table : Table) (key : Key) : Prop where
  context : key.context ∈ [Context.resource, .scope, .attributes, .log, .span, .unspecified]
  unmaterialized : key.materialized = false
  unlisted : table.isIntrinsic key = false

variable {table : Table} {key : Key}

theorem InMap.place (inMap : table.InMap key) :
    table.mapPlace? key = some ⟨mapName key, escapeText key.name⟩ := by
  obtain ⟨context, unmaterialized, unlisted⟩ := inMap
  rw [mapPlace?, unmaterialized, unlisted]
  simp only [List.mem_cons, List.not_mem_nil, or_false] at context
  rcases context with same | same | same | same | same | same <;> simp [mapName, same]

theorem InMap.not_body (inMap : table.InMap key) : key.context ≠ .body := by
  intro body
  have context := inMap.context
  rw [body] at context
  revert context
  decide

theorem InMap.field_eq (inMap : table.InMap key) :
    table.field key = .ok (mapName key ++ "[" ++ "'" ++ escapeText key.name ++ "'" ++ "]") := by
  rw [field, inMap.unlisted, inMap.unmaterialized, inMap.place]
  simp [inMap.not_body, String.append_assoc]

/-- Fields in maps are read by the same expression only if they have the same map and name. -/
theorem InMap.field_inj {other : Key} (inMap : table.InMap key) (inMap' : table.InMap other) :
    table.field key = table.field other ↔
      mapName key = mapName other ∧ key.name = other.name := by
  rw [inMap.field_eq, inMap'.field_eq]
  constructor
  · intro same
    have first : ∀ key, '\'' ∉ (mapName key ++ "[").toList := fun key => by
      simp [mapName_unquoted]
    have ends : "]".toList.head? ≠ some '\'' := by decide
    have quotes := quotes_escapeText (mapName key ++ "[") key.name ends
    rw [Except.ok.inj same] at quotes
    obtain ⟨map, name⟩ := quotes.unique (quotes_escapeText _ _ ends) (first key) (first other)
    exact ⟨(String.append_left_inj _).1 map, name⟩
  · rintro ⟨map, name⟩
    rw [map, name]

/-- A test whether a field is there is not guarded by a second one. -/
theorem condition_exist {column : String} (found : table.field key = .ok column) (negated : Bool)
    (value : Value) :
    table.condition key (.negateIf negated .exist) value =
      .ok (.ofText (table.existence key column negated)) := by
  have unguarded : ∀ operator fragment, operator.impliesExistence = false →
      table.guard key operator fragment = fragment := by
    intro operator fragment implies
    unfold guard
    split <;> simp [implies]
  rw [condition_eq, found]
  cases negated with
  | false => exact congrArg Except.ok (unguarded .exist _ rfl)
  | true => exact congrArg Except.ok (unguarded .notExist _ rfl)

/-- A field whose name is written into literals with the given value: in the expression that reads
the field, between an opening and a closing, and in the tests whether it is there. -/
structure QuotesName (table : Table) (key : Key) (value opening closing test : String) : Prop where
  field : ∃ text, table.field key = .ok text ∧ Quotes text opening value closing
  existence : ∀ negated argument, ∃ text,
    table.condition key (.negateIf negated .exist) argument = .ok (.ofText text) ∧
      Quotes text ((if negated then "NOT " else "") ++ test) value ")"

theorem quotesName_of_written {value opening closing test : String}
    (field : table.field key = .ok (opening ++ "'" ++ escapeText value ++ "'" ++ closing))
    (existence : ∀ column negated, table.existence key column negated =
      (if negated then "NOT " else "") ++ test ++ "'" ++ escapeText value ++ "'" ++ ")")
    (ends : closing.toList.head? ≠ some '\'') :
    QuotesName table key value opening closing test where
  field := ⟨_, field, quotes_escapeText opening value ends⟩
  existence negated argument := by
    refine ⟨_, condition_exist field negated argument, ?_⟩
    rw [existence]
    exact quotes_escapeText _ value (by decide)

theorem InMap.quotesName (inMap : table.InMap key) :
    QuotesName table key key.name (mapName key ++ "[") "]"
      ("mapContains(" ++ mapName key ++ ", ") := by
  refine quotesName_of_written inMap.field_eq (fun column negated => ?_) (by decide)
  simp only [existence, if_neg inMap.not_body, inMap.place]
  simp [String.append_assoc]

theorem quotesName_body (body : key.context = .body) (named : key.name ≠ "") :
    QuotesName table key ("$." ++ key.name) "JSON_VALUE(body, " ")" "JSON_EXISTS(body, " := by
  have unlisted : table.isIntrinsic key = false := by simp [isIntrinsic, body]
  refine quotesName_of_written ?_ (fun column negated => ?_) (by decide)
  · rw [field, unlisted, bodyField, bodyPath_eq]
    simp [body, named, String.append_assoc]
  · simp only [existence, if_pos body, bodyPath_eq]
    simp [String.append_assoc]

/-- The name of a field stays in the literals that it is written in, whatever characters it has: in
the expression that reads a field of a map or of the body, in the tests whether it is there, and in
the guard of a condition. So fields of maps are read by one expression only if they have the same
map and name. -/
theorem names_stay_quoted (table : Table) :
    (∀ key, table.InMap key →
      QuotesName table key key.name (mapName key ++ "[") "]"
        ("mapContains(" ++ mapName key ++ ", ") ∧
      ∀ operator value fragment, operator.impliesExistence = true →
        table.condition key operator value = .ok fragment →
        ∃ test, fragment = table.guard key operator test ∧
          Quotes fragment.sql ("(" ++ test.sql ++ " AND mapContains(" ++ mapName key ++ ", ")
            key.name ") = ?)") ∧
    (∀ key : Key, key.context = .body → key.name ≠ "" →
      QuotesName table key ("$." ++ key.name) "JSON_VALUE(body, " ")" "JSON_EXISTS(body, ") ∧
    ∀ key other, table.InMap key → table.InMap other → (table.field key = table.field other ↔
      mapName key = mapName other ∧ key.name = other.name) := by
  refine ⟨fun key inMap => ⟨inMap.quotesName, ?_⟩, fun key => quotesName_body,
    fun key other inMap inMap' => inMap.field_inj inMap'⟩
  intro operator value fragment implies ok
  obtain ⟨column, test, -, -, rfl⟩ := condition_ok ok
  have quotes := quotes_escapeText ("(" ++ test.sql ++ " AND mapContains(" ++ mapName key ++ ", ")
    key.name (by decide : ") = ?)".toList.head? ≠ _)
  refine ⟨test, rfl, ?_⟩
  rw [(guard_last inMap.place implies test).1]
  simpa [String.append_assoc] using quotes

/-- A name that closes a quote and a bracket, opens them again and ends in a backslash, in a map and
in the body. -/
theorem names_stay_quoted_hostile :
    let key : Key := { name := "a'] = b['\\", context := .attributes, type := .number }
    let inner : Key := { name := "a'] = b['\\", context := .body, materialized := true }
    Table.logs.InMap key ∧
      QuotesName Table.logs key "a'] = b['\\" "attributes_number[" "]"
        "mapContains(attributes_number, " ∧
      QuotesName Table.logs inner "$.a'] = b['\\" "JSON_VALUE(body, " ")"
        "JSON_EXISTS(body, " := by
  intro key inner
  have inMap : Table.logs.InMap key := ⟨by decide, rfl, by decide⟩
  obtain ⟨maps, bodies, -⟩ := names_stay_quoted Table.logs
  exact ⟨inMap, (maps key inMap).1, bodies inner rfl (by decide)⟩

end Table

end Schema

end TelemetryQuery
