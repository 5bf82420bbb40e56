import TelemetryQuery.Proofs.Having.Resolution
/- The columns of aggregations, and conditions on their results. -/
namespace TelemetryQuery.Having

variable {aggregations : List Aggregation}

namespace Columns

variable {key column : String} {columns : Columns}

theorem mem_insert {entry : String × String} (mem : entry ∈ insert key column columns) :
    entry = (key, column) ∨ entry ∈ columns := by
  induction columns with
  | nil => exact .inl (List.mem_singleton.1 mem)
  | cons first rest ih =>
    rw [insert] at mem
    split at mem
    · rcases List.mem_cons.1 mem with same | later
      · exact .inl same
      · exact .inr (List.mem_cons_of_mem first later)
    · split at mem
      · exact List.mem_cons.1 mem
      · rcases List.mem_cons.1 mem with same | later
        · exact .inr (List.mem_cons.2 (.inl same))
        · exact (ih later).imp id (List.mem_cons_of_mem first)

/-- The references of columns are in order, and no two are the same. -/
def Sorted (columns : Columns) : Prop :=
  columns.Pairwise fun a b => a.1 < b.1

theorem Sorted.insert (sorted : columns.Sorted) : (insert key column columns).Sorted := by
  induction columns with
  | nil => exact List.pairwise_singleton _ _
  | cons first rest ih =>
    obtain ⟨before, others⟩ := List.pairwise_cons.1 sorted
    rw [Columns.insert]
    split
    · next same => exact List.pairwise_cons.2 ⟨same ▸ before, others⟩
    · next other =>
      split
      · next less =>
        refine List.pairwise_cons.2 ⟨fun entry mem => ?_, sorted⟩
        rcases List.mem_cons.1 mem with rfl | mem
        · exact less
        · exact String.lt_trans less (before entry mem)
      · next notLess =>
        refine List.pairwise_cons.2 ⟨fun entry mem => ?_, ih others⟩
        rcases mem_insert mem with rfl | mem
        · exact Std.lt_of_le_of_ne (String.not_lt.1 notLess) (Ne.symm other)
        · exact before entry mem

theorem Sorted.nodup (sorted : columns.Sorted) : columns.references.Nodup := by
  refine List.pairwise_map.2 (sorted.imp fun {a b} less same => ?_)
  rw [same] at less
  exact String.lt_irrefl _ less

/-- Columns of results whose references are of some kind. -/
structure Made (isKey : String → Prop) (columns : Columns) : Prop where
  sorted : columns.Sorted
  keys : ∀ entry ∈ columns, isKey entry.1
  results : ∀ entry ∈ columns, ∃ i, entry.2 = resultColumn i

variable {isKey : String → Prop}

theorem Made.insert (made : columns.Made isKey) (holds : isKey key) (i : Nat) :
    (Columns.insert key (resultColumn i) columns).Made isKey where
  sorted := made.sorted.insert
  keys entry mem := by
    rcases mem_insert mem with rfl | mem
    · exact holds
    · exact made.keys entry mem
  results entry mem := by
    rcases mem_insert mem with rfl | mem
    · exact ⟨i, rfl⟩
    · exact made.results entry mem

theorem Made.insertNew (made : columns.Made isKey) (holds : isKey key) (i : Nat) :
    (columns.insertNew key (resultColumn i)).Made isKey := by
  rw [Columns.insertNew]
  split
  · exact made
  · exact made.insert holds i

/-- The texts that an aggregation is given. -/
def texts (aggregation : Aggregation) : List String :=
  aggregation.expression :: aggregation.name.toList

theorem Made.addAggregation (made : columns.Made isKey)
    (position : ∀ i : Nat, isKey ("__result" ++ toString i)) {aggregation : Aggregation}
    (holds : ∀ text ∈ texts aggregation, isKey text) (i : Nat) :
    (columns.addAggregation aggregation i).Made isKey := by
  obtain ⟨expression, name⟩ := aggregation
  rw [texts, List.forall_mem_cons] at holds
  have first := made.insertNew holds.1 i
  rw [Columns.addAggregation]
  refine Made.insert ?_ (position i) i
  cases name with
  | none => exact first
  | some name => exact first.insert (holds.2 name List.mem_cons_self) i

/-- The columns of aggregations are made of what the aggregations are given, and of positions. -/
theorem made_ofAggregations (short : isKey "__result")
    (position : ∀ i : Nat, isKey ("__result" ++ toString i))
    (holds : ∀ aggregation ∈ aggregations, ∀ text ∈ texts aggregation, isKey text) :
    (ofAggregations aggregations).Made isKey := by
  have fold : ∀ (pairs : List (Aggregation × Nat)) (columns : Columns), columns.Made isKey →
      (∀ pair ∈ pairs, ∀ text ∈ texts pair.1, isKey text) →
      (pairs.foldl (fun made pair => made.addAggregation pair.1 pair.2) columns).Made isKey := by
    intro pairs
    induction pairs with
    | nil => intro columns made _; exact made
    | cons pair pairs ih =>
      intro columns made holds
      obtain ⟨first, rest⟩ := List.forall_mem_cons.1 holds
      exact ih _ (made.addAggregation position first pair.2) rest
  have empty : Made isKey [] := ⟨.nil, nofun, nofun⟩
  have made := fold aggregations.zipIdx [] empty
    fun pair mem => holds pair.1 (List.fst_mem_of_mem_zipIdx mem)
  rw [ofAggregations]
  split
  · exact made.insert short 0
  · exact made

/-- A column stays one with a number after it, where an underscore tells it from reserved words. -/
theorem isColumn_append {start : String} (column : isColumn start = true)
    (line : '_' ∈ start.toList) (i : Nat) : isColumn (start ++ toString i) = true := by
  obtain ⟨⟨chars, pointless⟩, _⟩ := isColumn_iff.1 column
  have digit : ∀ c ∈ (toString i).toList, c.isDigit = true := fun c => isDigit_toString
  have kind : Kind.ofWord (start ++ toString i) = .identifier := by
    by_contra reserved
    have inside : '_' ∈ (start ++ toString i).toList := by
      rw [String.toList_append]
      exact List.mem_append_left _ line
    have letter := (isAlpha_of_reserved reserved inside).2
    revert letter
    decide
  refine isColumn_iff.2 ⟨⟨⟨?_, ?_, ?_⟩, ?_⟩, kind⟩
  · obtain ⟨c, more, split, starts⟩ := chars.cons
    rw [String.toList_append, split]
    exact starts
  · rw [String.toList_append, List.forall_mem_append]
    exact ⟨chars.continues, fun c mem => continuesIdentifier_digit (digit c mem)⟩
  · rw [String.toList_append, List.forall_mem_append]
    exact ⟨chars.ascii, fun c mem => ascii_of_isDigit (digit c mem)⟩
  · rw [String.toList_append, List.mem_append, not_or]
    refine ⟨pointless, fun mem => ?_⟩
    have isDigit := digit _ mem
    revert isDigit
    decide

theorem isKey_of_isColumn {name : String} (column : isColumn name = true) : IsKey name :=
  ⟨.identifier name, isName_of_isColumn column, rfl⟩

theorem isColumn_ofAggregations {entry : String × String}
    (mem : entry ∈ ofAggregations aggregations) : isColumn entry.2 = true := by
  have made : (ofAggregations aggregations).Made fun _ => True :=
    made_ofAggregations trivial (fun _ => trivial) fun _ _ _ _ => trivial
  obtain ⟨i, same⟩ := made.results entry mem
  have result : isColumn "__result_" = true := by decide +kernel
  rw [same]
  exact isColumn_append result (by decide) i

/-- The columns of aggregations suit a condition that holds only plain references to them. -/
theorem suits_ofAggregations {text : List Char}
    (keys : ∀ aggregation ∈ aggregations, ∀ key ∈ texts aggregation,
      IsKey key ∨ Unseen text key.toList) :
    (ofAggregations aggregations).Suits text := by
  have short : isColumn "__result" = true := by decide +kernel
  have position : ∀ i : Nat, IsKey ("__result" ++ toString i) :=
    fun i => isKey_of_isColumn (isColumn_append short (by decide) i)
  have made : (ofAggregations aggregations).Made fun key => IsKey key ∨ Unseen text key.toList :=
    made_ofAggregations (.inl (isKey_of_isColumn short)) (fun i => .inl (position i)) keys
  exact ⟨made.keys, made.sorted.nodup,
    fun _ mem => (isColumn_iff.1 (isColumn_ofAggregations mem)).1⟩

end Columns

/-- No exponent of a number follows its point. -/
def PlainExponent (chars : List Char) : Prop :=
  ¬['.', 'e'] <:+: chars ∧ ¬['.', 'E'] <:+: chars

instance (chars : List Char) : Decidable (PlainExponent chars) :=
  inferInstanceAs (Decidable (_ ∧ _))

theorem PlainExponent.clear {number : List Char} (plain : PlainExponent number)
    (whole : numberLength number = number.length) (key : String) : Clear number key := by
  rintro c _ letter ⟨start, more, split⟩
  obtain ⟨digits, fraction, exponent, rfl, parts⟩ := number_parts whole
  have letters : digits ++ fraction ++ exponent = (start ++ ['.']) ++ c :: more := by
    rw [List.append_assoc, ← split]
    simp
  rcases (number_letter parts letter letters).2 with rfl | rfl
  · exact plain.1 ⟨start, more, split⟩
  · exact plain.2 ⟨start, more, split⟩

theorem numberLength_token {text : String} (clean : (lex text).errors = []) {token : Token}
    (mem : token ∈ (lex text).tokens) (number : token.kind = .number) :
    numberLength token.text.toList = token.text.toList.length := by
  obtain ⟨ending, lexemes, _, laid, words⟩ := laid_of_lexFrom .start text.toList clean
  have isLexeme : token.word ∈ lexemes.map Lexeme.word := by
    rw [← words]
    exact List.mem_map_of_mem mem
  obtain ⟨⟨gap, kind, chars⟩, inside, same⟩ := List.mem_map.1 isLexeme
  obtain rfl : kind = .number := (congrArg Word.kind same).trans number
  have written : token.text = String.ofList chars := ((Token.word_open rfl).1 same.symm).2
  rw [written, String.toList_ofList]
  rw [← List.append_nil lexemes] at laid
  obtain ⟨_, rest, takes⟩ := laid.append.2 _ inside
  exact takes.number_eq.1

/-- The condition of a query on the results of its aggregations holds only columns after it is
resolved: each reference to an aggregation has become the column of its result. -/
theorem resolve_ofAggregations {aggregations : List Aggregation} {text : String} {expr : Expr}
    (keys : ∀ aggregation ∈ aggregations, ∀ key ∈ Columns.texts aggregation,
      IsKey key ∨ Unseen text.toList key.toList)
    (unquoted : Unquoted text.toList) (parsed : parse text = .ok (some expr))
    (checked : checkReferences (.ofAggregations aggregations) expr.references = .ok ())
    (numbers : ∀ token ∈ (lex text).tokens, token.kind = .number →
      PlainExponent token.text.toList)
    (apart : CallsApart text.toList) :
    ∃ resolved, resolve (.ofAggregations aggregations) text = .ok resolved ∧
      parse resolved =
        .ok (some (expr.replace (Columns.rename (.ofAggregations aggregations)))) ∧
      ∀ reference ∈ (expr.replace (Columns.rename (.ofAggregations aggregations))).references,
        ∃ column ∈ Columns.targets (.ofAggregations aggregations),
          reference = .identifier column := by
  have resolvable : Resolvable (.ofAggregations aggregations) text expr :=
    ⟨⟨Columns.suits_ofAggregations keys, unquoted, parsed, checkReferences_eq_ok.1 checked,
      fun token mem number _ _ => (numbers token mem number).clear
        (numberLength_token (parse_sound parsed).1 mem number) _⟩,
      fun _ mem => (isColumn_iff.1 (Columns.isColumn_ofAggregations mem)).2, apart⟩
  exact ⟨_, resolvable.resolve_eq, resolvable.parse_substitute, resolvable.references_replace⟩

/-- One aggregation is named, and its expression stands in no condition; the other one is called
with blanks, and named by its column too. -/
theorem resolve_ofAggregations_ratio :
    let columns := Columns.ofAggregations [⟨"countIf(code = 'x')", some "errors"⟩,
      ⟨"sum(a.b)", none⟩]
    ∃ resolved, resolve columns "sum( a.b ) > 10 AND NOT (errors / __result_1 >= 1.5e3)" =
        .ok resolved ∧
      parse resolved = .ok (some (.and [
        .comparison (.identifier "__result_1") .greater (.number "10"),
        .not (.comparison (.binary (.identifier "__result_0") .divide (.identifier "__result_1"))
          .greaterEq (.number "1.5e3"))])) := by
  intro columns
  have call : IsKey "sum(a.b)" :=
    ⟨.call "sum" [.identifier "a.b"], by decide +kernel, by decide +kernel⟩
  have name : IsKey "errors" := ⟨.identifier "errors", by decide +kernel, rfl⟩
  have first : Spells (.primary (.comparison (.call "sum" [.identifier "a.b"]) .greater
      (.number "10"))) _ :=
    .comparison (.ofTerm (.ofFactor (.call (.lastArgument (.ofTerm (.ofFactor .identifier))))))
      (.ofTerm (.ofFactor .number))
  have second : Spells (.primary (.comparison (.binary (.identifier "errors") .divide
      (.identifier "__result_1")) .greaterEq (.number "1.5e3"))) _ :=
    .comparison (.ofTerm (.product rfl (.ofFactor .identifier) .identifier))
      (.ofTerm (.ofFactor .number))
  have spelled : Expr.Spelled (.and [_, .not _]) _ :=
    ⟨_, rfl, .only (.both first (.lone (.not (.only (.lone second)))))⟩
  obtain ⟨resolved, ok, read, _⟩ := @resolve_ofAggregations
    [⟨"countIf(code = 'x')", some "errors"⟩, ⟨"sum(a.b)", none⟩]
    "sum( a.b ) > 10 AND NOT (errors / __result_1 >= 1.5e3)" _
    (by
      simp only [Columns.texts, List.forall_mem_cons, Option.toList_some, Option.toList_none]
      exact ⟨⟨.inr ⟨by decide +kernel, ⟨'c', by decide +kernel, by decide⟩, by decide +kernel⟩,
        .inl name, nofun⟩, ⟨.inl call, nofun⟩, nofun⟩)
    (by decide +kernel)
    (parse_of_words spelled (by decide +kernel) (by decide +kernel))
    (by decide +kernel)
    (by decide +kernel)
    (callsApart_of_chain (by decide +kernel))
  have sum : columns.rename (.call "sum" [.identifier "a.b"]) = .identifier "__result_1" :=
    Columns.rename_found (by decide +kernel)
  have errors : columns.rename (.identifier "errors") = .identifier "__result_0" :=
    Columns.rename_found (by decide +kernel)
  have column : columns.rename (.identifier "__result_1") = .identifier "__result_1" :=
    Columns.rename_missed (by decide +kernel)
  have renamed : parse resolved = .ok (some (Expr.replace columns.rename _)) := read
  refine ⟨resolved, ok, ?_⟩
  rw [renamed]
  simp only [collapse, Expr.replace, replaceAll, Operand.replace, sum, errors, column]

/-- A call with an operator in it is known by its text without blanks, and is not found in the
condition if blanks stand around the operator: it is left there. -/
theorem resolve_keeps_operator_call :
    let columns := Columns.ofAggregations [⟨"sum(a + b)", none⟩]
    let text := "sum(a + b) > 10"
    let call := Operand.call "sum" [.binary (.identifier "a") .add (.identifier "b")]
    let expr := Expr.comparison call .greater (.number "10")
    parse text = .ok (some expr) ∧ checkReferences columns expr.references = .ok () ∧
      (resolve columns text).toOption = some text ∧
      ∃ reference ∈ expr.references, ∀ column ∈ columns.targets,
        reference ≠ .identifier column := by
  intro columns text call expr
  have spelled : expr.Spelled _ :=
    ⟨_, rfl, .only (.lone (.comparison (.ofTerm (.ofFactor (.call (.lastArgument
      (.sum rfl (.ofTerm (.ofFactor .identifier)) (.ofFactor .identifier))))))
      (.ofTerm (.ofFactor .number))))⟩
  have order : longestFirst columns = [("sum(a + b)", "__result_0"), ("__result0", "__result_0"),
      ("__result", "__result_0")] :=
    longestFirst_eq (by decide +kernel) (by decide +kernel) (by decide +kernel)
  refine ⟨parse_of_words spelled (by decide +kernel) (by decide +kernel), by decide +kernel, ?_,
    .call "sum" call.render, by decide +kernel, nofun⟩
  rw [resolve, substitute, order]
  decide +kernel

end TelemetryQuery.Having
