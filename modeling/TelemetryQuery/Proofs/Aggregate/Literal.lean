import TelemetryQuery.Proofs.Aggregate.Placeholder
import TelemetryQuery.Proofs.Sql.Comparison
import TelemetryQuery.Proofs.Where.SelectAll
/- Texts in the conditions of aggregate functions. They are written as SQL has them, with quotes
doubled, and read again as filters have them, where a quote ends a text. -/
namespace TelemetryQuery.Sql

variable {c : Char} {others : List (List Char)} {written : String}

/-- The parts of a text that quotes divide, the first one apart. Two quotes in a row divide it
once. -/
def quoteParts : List Char → List Char × List (List Char)
  | [] => ([], [])
  | '\'' :: '\'' :: text => ([], (quoteParts text).1 :: (quoteParts text).2)
  | '\'' :: text => ([], (quoteParts text).1 :: (quoteParts text).2)
  | c :: text => (c :: (quoteParts text).1, (quoteParts text).2)

def quoted (text : List Char) : List Char :=
  '\'' :: (text ++ ['\''])

theorem quoteParts_other (other : c ≠ '\'') (text : List Char) :
    quoteParts (c :: text) = (c :: (quoteParts text).1, (quoteParts text).2) := by
  rw [quoteParts]
  · exact fun _ same => absurd same other
  · exact fun same => absurd same other

theorem quoteParts_unquoted {text : List Char} (unquoted : '\'' ∉ text) :
    quoteParts text = (text, []) := by
  induction text with
  | nil => rfl
  | cons c text ih =>
    obtain ⟨other, later⟩ := not_or.1 (mt List.mem_cons.2 unquoted)
    rw [quoteParts_other (Ne.symm other), ih later]

/-- The first part is what stands before the first quote. -/
theorem quoteParts_first (text : List Char) :
    (quoteParts text).1 = text.takeWhile (· != '\'') := by
  fun_induction quoteParts text with
  | case1 => rfl
  | case2 text _ => rfl
  | case3 text _ _ => rfl
  | case4 c text _ other ih =>
    rw [List.takeWhile_cons_of_pos (by simpa using other), ih]

theorem quoteParts_plain {text : List Char} (plain : '\\' ∉ text) :
    ∀ part ∈ (quoteParts text).1 :: (quoteParts text).2, '\'' ∉ part ∧ '\\' ∉ part := by
  fun_induction quoteParts text with
  | case1 => simp
  | case2 text ih =>
    have later := ih fun mem => plain (by simp [mem])
    exact List.forall_mem_cons.2 ⟨by simp, later⟩
  | case3 text _ ih =>
    have later := ih fun mem => plain (by simp [mem])
    exact List.forall_mem_cons.2 ⟨by simp, later⟩
  | case4 c text _ other ih =>
    have later := List.forall_mem_cons.1 (ih fun mem => plain (by simp [mem]))
    have slash : c ≠ '\\' := fun same => plain (by simp [same])
    refine List.forall_mem_cons.2 ⟨?_, later.2⟩
    simpa [eq_comm, slash, and_assoc] using And.intro other later.1

/-- Without backslashes in it, what is shown of a text and its closing quote is its parts, with
quotes between them that end one and start the next. -/
theorem escapeQuotes_eq {text : List Char} (plain : '\\' ∉ text) :
    escapeQuotes '\'' false text ++ ['\''] =
      (quoteParts text).1 ++ '\'' :: (quoteParts text).2.flatMap quoted := by
  fun_induction quoteParts text with
  | case1 => rfl
  | case2 text ih =>
    have later := ih fun mem => plain (by simp [mem])
    have doubled : escapeQuotes '\'' false ('\'' :: '\'' :: text) =
      '\'' :: '\'' :: escapeQuotes '\'' false text := rfl
    rw [doubled]
    simp [later, quoted]
  | case3 text lone ih =>
    have later := ih fun mem => plain (by simp [mem])
    have doubled : escapeQuotes '\'' false ('\'' :: text) =
        '\'' :: '\'' :: escapeQuotes '\'' false text := by
      cases text with
      | nil => rfl
      | cons d more =>
        have other : d ≠ '\'' := fun same => lone more (by rw [same])
        simp [escapeQuotes, other]
    rw [doubled]
    simp [later, quoted]
  | case4 c text _ other ih =>
    have later := ih fun mem => plain (by simp [mem])
    have slash : c ≠ '\\' := fun same => plain (by simp [same])
    have kept : escapeQuotes '\'' false (c :: text) = c :: escapeQuotes '\'' false text := by
      rw [escapeQuotes.eq_def]
      simp only [if_neg other, decide_eq_false slash]
    rw [kept, List.cons_append, later, List.cons_append]

theorem quoteText_toList {text : String} (plain : '\\' ∉ text.toList) :
    (quoteText '\'' text).toList =
      quoted (quoteParts text.toList).1 ++ (quoteParts text.toList).2.flatMap quoted := by
  rw [quoteText, String.toList_ofList, List.cons_append, escapeQuotes_eq plain]
  simp [quoted]

/-- The comparison of a name with a text, as it is shown. -/
theorem render_comparison (words : List String) (text : String) :
    (comparison words text).render =
      Text.joinWith "." words ++ " = " ++ quoteText '\'' text := by
  have name : nameText (words.map (⟨·, none⟩)) = Text.joinWith "." words := by
    rw [nameText, List.map_map]
    exact congrArg _ (List.map_id words)
  rw [comparison, Expr.render, Expr.render, Expr.render, name, BinaryOp.text]
  apply String.toList_injective
  simp

end TelemetryQuery.Sql

namespace TelemetryQuery.Filter

open TelemetryQuery.Sql (quoted)

theorem startsKey_of_startsWord (starts : Sql.startsWord c = true) : startsKey c = true := by
  simp only [Sql.startsWord, Bool.or_eq_true, decide_eq_true_eq] at starts
  rcases starts with letter | rfl
  · simp [startsKey, Text.isAlphabetic, letter]
  · simp [startsKey]

theorem continuesKey_of_continuesWord (continues : Sql.continuesWord c = true) :
    continuesKey c = true := by
  simp only [Sql.continuesWord, Sql.startsWord, Bool.or_eq_true, decide_eq_true_eq] at continues
  rcases continues with (letter | rfl) | digit
  · simp [continuesKey, Text.isAlphanumeric, Text.isAlphabetic, letter]
  · simp [continuesKey]
  · simp [continuesKey, Text.isAlphanumeric, Text.isNumeric, digit]

/-- A name of SQL has the shape of a key. -/
theorem keyShaped_name {words : List String} (some : words ≠ [])
    (identifiers : ∀ word ∈ words, Sql.IsIdentifier word) :
    KeyShaped (Text.joinWith "." words).toList := by
  induction words with
  | nil => exact absurd rfl some
  | cons word words ih =>
    obtain ⟨c, tail, chars, starts, continues⟩ := (identifiers word List.mem_cons_self).shape
    have first := startsKey_of_startsWord starts
    have whole : KeyTail tail :=
      .ofAll fun d mem => continuesKey_of_continuesWord (continues d mem)
    cases words with
    | nil => exact ⟨c, tail, chars, first, whole⟩
    | cons next words =>
      obtain ⟨d, others, begins, starts, later⟩ :=
        ih (by simp) fun other among => identifiers other (List.mem_cons_of_mem _ among)
      refine ⟨c, tail ++ '.' :: d :: others, ?_, first, whole.append (.part ?_ later)⟩
      · rw [joinWith_cons _ _ (by simp), String.toList_append, String.toList_append, begins, chars]
        simp
      · rw [starts, Bool.true_or]

theorem content?_unquoted {text : List Char} (unquoted : '\'' ∉ text) (plain : '\\' ∉ text)
    (rest : List Char) : content? (text ++ '\'' :: rest) = some text := by
  induction text with
  | nil => rfl
  | cons c text ih =>
    obtain ⟨other, later⟩ := not_or.1 (mt List.mem_cons.2 unquoted)
    obtain ⟨slash, left⟩ := not_or.1 (mt List.mem_cons.2 plain)
    rw [List.cons_append, content?_char (Ne.symm slash) (Ne.symm other), ih later left]
    rfl

theorem unquote_unquoted {text : List Char} (unquoted : '\'' ∉ text) (plain : '\\' ∉ text) :
    Text.unquote (quotedWord text).text = String.ofList text := by
  have verbatim : Verbatim text :=
    ⟨unquoted, fun doubled => plain (doubled.subset List.mem_cons_self),
      fun ended => plain (List.mem_of_getLast? ended)⟩
  rw [unquote_quotedWord, verbatim.unescape_eq]

/-- Texts between quotes, one right after the other, are cut at their quotes. -/
theorem cuts_quoted {parts : List (List Char)}
    (plain : ∀ part ∈ parts, '\'' ∉ part ∧ '\\' ∉ part) :
    Cuts (parts.flatMap quoted) (parts.map quotedWord) := by
  induction parts with
  | nil => exact .nil
  | cons part parts ih =>
    obtain ⟨⟨unquoted, slashless⟩, later⟩ := List.forall_mem_cons.1 plain
    have chars : (part :: parts).flatMap quoted =
        '\'' :: (part ++ '\'' :: parts.flatMap quoted) := by simp [quoted]
    rw [chars, cuts_quote]
    exact ⟨part, _, _, content?_unquoted unquoted slashless _, rfl, rfl, ih later⟩

/-- The terms of a comparison of a key with a text, and of searches for others. -/
def comparedTerms (key : String) (text : List Char) (others : List (List Char)) : List Term :=
  .atom false (.comparison ⟨key, .start⟩ (.relation .equal (.quoted (quotedWord text).text))) ::
    others.map fun other => .atom false (.quotedText (quotedWord other).text)

theorem spells_searches (some : others ≠ []) :
    Spells (.terms (others.map fun other => .atom false (.quotedText (quotedWord other).text)))
      (others.map quotedWord) := by
  induction others with
  | nil => exact absurd rfl some
  | cons other others ih =>
    have first : Spells (.term (.atom false (.quotedText (quotedWord other).text)))
      [quotedWord other] := .atom trivial
    cases others with
    | nil => exact .lone first
    | cons next others => exact .adjacent first (ih (by simp))

theorem spells_compared (key : String) (text : List Char) (others : List (List Char)) :
    Spells (.branches [comparedTerms key text others])
      (.ofText .key key :: .fixed .equals :: quotedWord text :: others.map quotedWord) := by
  have first : Spells (.term (.atom false (.comparison ⟨key, .start⟩
      (.relation .equal (.quoted (quotedWord text).text)))))
        [.ofText .key key, .fixed .equals, quotedWord text] := .atom trivial
  cases others with
  | nil => exact .only (.lone first)
  | cons other others => exact .only (.adjacent first (spells_searches (by simp)))

/-- A key, an equals sign and texts between quotes are a comparison and searches. -/
theorem parse_compared {key : String} {text : List Char}
    (run : runAt key.toList = (.token .key, key.toList.length))
    (plain : ∀ part ∈ text :: others, '\'' ∉ part ∧ '\\' ∉ part)
    (chars : written.toList = quoted text ++ others.flatMap quoted) :
    ∃ found, parse (key ++ " = " ++ written) = .ok found ∧
      Query.unplaced found = Query.unplaced (some [comparedTerms key text others]) := by
  have whole : (key ++ " = " ++ written).toList =
      key.toList ++ ' ' :: (['='] ++ ' ' :: written.toList) := by simp
  have stops : Stops (' ' :: (['='] ++ ' ' :: written.toList)) := stops_cons (by decide) _
  have equals : runAt (['='] ++ ' ' :: written.toList) = (.token .equals, ['='].length) := rfl
  have quotes : Cuts written.toList ((text :: others).map quotedWord) := by
    rw [chars]
    exact cuts_quoted plain
  have cuts : Cuts (key ++ " = " ++ written).toList
      (.ofText .key (String.ofList key.toList) :: .fixed .equals ::
        (text :: others).map quotedWord) := by
    rw [whole]
    exact .token (runAt_append stops run) (Cuts.space (.token equals quotes.space))
  rw [String.ofList_toList] at cuts
  exact parse_of_cuts cuts (spells_compared key text others)

end TelemetryQuery.Filter

namespace TelemetryQuery.Where

open TelemetryQuery.Field (Key)
open TelemetryQuery.Filter (KeyRef comparedTerms quotedWord)
open TelemetryQuery.Sql (Fragment)

/-- The condition that a field with a column equals a text. -/
def equalityOf (table : Schema.Table) (key : Key) (column : String) (text : String) : Fragment :=
  table.guard key .equal (Schema.Table.compare column "=" (.text text))

/-- The text is the first value bound in the condition. -/
theorem arguments_equalityOf (table : Schema.Table) (key : Key) (column text : String) :
    ∃ more, (equalityOf table key column text).arguments = .text text :: more := by
  unfold equalityOf Schema.Table.guard
  split
  · split <;> exact ⟨_, rfl⟩
  · exact ⟨_, rfl⟩

theorem condition_equal {table : Schema.Table} {key : Key} {column : String}
    (stored : table.field key = .ok column) (typed : key.type = .string) (text : String) :
    table.condition key .equal (.text text) = .ok (equalityOf table key column text) := by
  rw [Schema.Table.condition, stored, typed]
  rfl

/-- A name that means one known field, of texts and with a column, about which conditions are not
left out. -/
structure Options.Names (options : Options) (name : String) (key : Key) (column : String) :
    Prop where
  known : ∀ place, options.candidates ⟨name, place⟩ = ⟨[key], []⟩
  typed : key.type = .string
  stored : options.table.field key = .ok column
  kept : options.skipResource = true → key.context ≠ .resource

section Compared

variable {options : Options} {name : String} {key : Key} {column : String}

/-- A comparison of such a name with a text is one condition. -/
theorem Options.Names.comparison (names : options.Names name key column)
    (unbound : options.bindings = []) {skipResource : Bool}
    (skips : skipResource = true → options.skipResource = true) (place : Text.Place)
    (raw : String) :
    options.comparison skipResource ⟨name, place⟩ (.relation .equal (.quoted raw)) =
      ⟨some (.atom (equalityOf options.table key column (Text.unquote raw))), []⟩ := by
  have found := names.known place
  have fields : options.fields skipResource ⟨name, place⟩ = [key] := by
    rw [Options.fields, found]
    cases skipResource with
    | false => rfl
    | true => simp [names.kept (skips rfl)]
  have operand : operandOf options.bindings (.relation .equal (.quoted raw)) =
      .value (.text (Text.unquote raw)) := by
    rw [operandOf, unbound]
    exact scalarOperand_eq (names_nil (.quoted raw))
  have made : options.conditions [key] .equal (.text (Text.unquote raw)) =
      ⟨some (.atom (equalityOf options.table key column (Text.unquote raw))), []⟩ := by
    rw [Options.conditions, List.mapM_cons, condition_equal names.stored names.typed]
    rfl
  rw [options.comparison_some (by simp [fields]), fields, Options.compared, operand, found]
  change Outcome.after [] (Outcome.after [] (options.conditions [key] .equal _)) = _
  rw [made]
  rfl

/-- The comparison with a text is the first condition, and others are searched for. -/
theorem Options.Names.terms (names : options.Names name key column)
    (unbound : options.bindings = []) {skipResource : Bool}
    (skips : skipResource = true → options.skipResource = true) (text : List Char)
    (others : List (List Char)) :
    options.terms skipResource (comparedTerms name text others) =
      ⟨some (.atom (equalityOf options.table key column (Text.unquote (quotedWord text).text))),
        []⟩ :: others.map fun other => options.search (Text.unquote (quotedWord other).text) := by
  have first := names.comparison unbound skips .start (quotedWord text).text
  rw [comparedTerms, options.terms_eq_map, List.map_cons, List.map_map, Options.term,
    Options.atom, first]
  rfl

/-- What is bound in the first of several conditions is bound first. -/
theorem join?_cons (first : Predicate) (more : List Predicate) :
    ∃ predicate rest, Predicate.join? .all (first :: more) = some predicate ∧
      predicate.fragment.arguments = first.fragment.arguments ++ rest := by
  have fragment := joins_all.fragment (first :: more)
  obtain ⟨predicate, made⟩ : ∃ predicate, Predicate.join? .all (first :: more) = some predicate := by
    cases more <;> exact ⟨_, rfl⟩
  rw [made, Option.elim_some] at fragment
  refine ⟨predicate, (more.map Predicate.fragment).flatMap Fragment.arguments, made, ?_⟩
  rw [fragment, Fragment.arguments_connect, List.map_cons, List.flatMap_cons]

/-- What a filter compares that is made of a key, an equals sign and texts between quotes: the key
with the first text. If there is only one text, it compares nothing else. -/
theorem Options.Names.compile (names : options.Names name key column)
    (unbound : options.bindings = [])
    (run : Filter.runAt name.toList = (.token .key, name.toList.length)) {text : List Char}
    (plain : ∀ part ∈ text :: others, '\'' ∉ part ∧ '\\' ∉ part)
    (chars : written.toList = Sql.quoted text ++ others.flatMap Sql.quoted) :
    (∀ clause, compile options (name ++ " = " ++ written) = .ok clause →
      ∃ more, clause.arguments = .text (String.ofList text) :: more) ∧
    (others = [] → ∃ clause, compile options (name ++ " = " ++ written) = .ok clause ∧
      clause.fragment = equalityOf options.table key column (String.ofList text)) := by
  obtain ⟨query, ok, same⟩ := Filter.parse_compared run plain chars
  have view := compile_view options ok
  rw [options.query_view_of_unplaced same] at view
  have skips : options.skips (name ++ " = " ++ written) = true → options.skipResource = true :=
    fun both => (Bool.and_eq_true_iff.1 both).1
  have terms := names.terms unbound skips text others
  obtain ⟨unquoted, slashless⟩ := plain text List.mem_cons_self
  rw [Filter.unquote_unquoted unquoted slashless] at terms
  rw [Options.query, Option.elim_some, Options.branches, Options.branches, terms] at view
  constructor
  · intro clause compiled
    rw [compiled] at view
    obtain ⟨-, fragment⟩ := Option.ite_none_right_eq_some.1 view.symm
    rw [Outcome.view, Outcome.predicate_join_singleton] at fragment
    obtain ⟨predicate, rest, made, arguments⟩ := join?_cons
      (.atom (equalityOf options.table key column (String.ofList text)))
      ((others.map fun other =>
        options.search (Text.unquote (quotedWord other).text)).filterMap Outcome.predicate)
    obtain ⟨more, first⟩ := arguments_equalityOf options.table key column (String.ofList text)
    have shown : predicate.fragment = clause.fragment := by
      change some ((Predicate.join? .all (_ :: _)).elim _ Predicate.fragment) = _ at fragment
      rw [made] at fragment
      exact Option.some.inj fragment
    refine ⟨more ++ rest, ?_⟩
    rw [Clause.arguments, ← shown, arguments, Predicate.fragment, first, List.cons_append]
  · rintro rfl
    cases compiled : Where.compile options (name ++ " = " ++ written) with
    | error failure =>
      rw [compiled] at view
      cases view
    | ok clause =>
      rw [compiled] at view
      exact ⟨clause, rfl, Option.some.inj view⟩

end Compared

end TelemetryQuery.Where

namespace TelemetryQuery.Aggregate

open TelemetryQuery.Field (Key)
open TelemetryQuery.Sql (Fragment)

theorem arguments_enclosed (opening closing : String) (fragment : Fragment) :
    (Fragment.ofText opening ++ fragment ++ .ofText closing).arguments = fragment.arguments := by
  simp [Fragment.ofText]

theorem sql_enclosed (opening closing : String) (fragment : Fragment) :
    (Fragment.ofText opening ++ fragment ++ .ofText closing).sql =
      opening ++ fragment.sql ++ closing := by
  rw [Fragment.sql_append, Fragment.sql_append, sql_ofText, sql_ofText]

/-- The function that counts what a filter keeps. -/
def countIf : Function :=
  { name := "countIf", sqlName := "countIf", minArguments := 1, maxArguments := 1,
    conditional := true }

theorem ofName?_countIf : Function.ofName? "countIf" = some countIf := by
  decide +kernel

/-- A call of `countIf` on a comparison has the clause of the comparison, read as a filter. -/
theorem compile_countIf (options : Options) {left right : Sql.Expr} {op : Sql.BinaryOp}
    (read : Sql.read written = .ok (.call [⟨"countIf", none⟩] "" "" [.binary left op right])) :
    compile options written =
      ((Where.compile options.filter (Sql.Expr.binary left op right).render).map fun clause =>
        ⟨.ofText "countIf(" ++ clause.fragment ++ .ofText ")", clause.warnings⟩).mapError
          .filter := by
  have name : Sql.nameText [⟨"countIf", none⟩] = "countIf" := rfl
  have arity : countIf.checkArity 1 = .ok () := rfl
  have conditional : countIf.conditional = true := rfl
  have filter : options.conditionArgument (.binary left op right) =
    options.condition (.binary left op right) := rfl
  rw [compile, read]
  dsimp only
  rw [Options.expr, name, ofName?_countIf]
  dsimp only
  rw [Options.aggregate, List.length_singleton, arity]
  dsimp only
  rw [Options.arguments, if_pos conditional, filter, Options.condition]
  cases Where.compile options.filter (Sql.Expr.binary left op right).render with
  | error reason => rfl
  | ok clause =>
    change Except.ok (Compiled.mk ((.ofText "countIf(" ++ clause.fragment ++ .ofText ")") ++ [])
      ([] ++ clause.warnings ++ [])) = _
    rw [List.append_nil, List.append_nil]
    rfl

/-- What the clause of the comparison binds first, the call binds first. -/
theorem head?_compile_countIf {options : Options} {left right : Sql.Expr} {op : Sql.BinaryOp}
    {value : Value}
    (read : Sql.read written = .ok (.call [⟨"countIf", none⟩] "" "" [.binary left op right]))
    (first : ∀ clause,
      Where.compile options.filter (Sql.Expr.binary left op right).render = .ok clause →
        ∃ more, clause.arguments = value :: more)
    {compiled : Compiled} (ok : compile options written = .ok compiled) :
    compiled.arguments.head? = some value := by
  rw [compile_countIf options read] at ok
  cases found : Where.compile options.filter (Sql.Expr.binary left op right).render with
  | error reason =>
    rw [found] at ok
    cases ok
  | ok clause =>
    rw [found] at ok
    cases ok
    obtain ⟨more, arguments⟩ := first clause found
    rw [Compiled.arguments, arguments_enclosed]
    exact congrArg List.head? arguments

end TelemetryQuery.Aggregate
