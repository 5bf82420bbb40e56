import Mathlib.Data.List.Induction
import TelemetryQuery.Proofs.Having.AggregationColumns
/- Which aggregation each reference of a condition names. -/
namespace TelemetryQuery.Having.Columns

variable {a : Aggregation}

section Lookup

variable (columns : Columns) (key column reference : String)

theorem lookup_entry : List.lookup reference ((key, column) :: columns) =
    if reference = key then some column else columns.lookup reference := by
  rw [List.lookup_cons]
  by_cases same : reference = key
  · simp [same]
  · rw [beq_false_of_ne same, if_neg same]

theorem lookup_insert : (insert key column columns).lookup reference =
    if reference = key then some column else columns.lookup reference := by
  induction columns with
  | nil => exact lookup_entry [] key column reference
  | cons first rest ih =>
    obtain ⟨other, old⟩ := first
    rw [insert]
    split
    · next same =>
      subst same
      rw [lookup_entry, lookup_entry]
      split <;> rfl
    · next different =>
      split
      · rw [lookup_entry]
      · rw [lookup_entry, ih, lookup_entry]
        by_cases same : reference = other
        · subst same
          rw [if_pos rfl, if_pos rfl, if_neg (Ne.symm different)]
        · rw [if_neg same, if_neg same]

/-- A column that is there already stays. -/
theorem lookup_insertNew : (columns.insertNew key column).lookup reference =
    (columns.lookup reference).or (if reference = key then some column else none) := by
  rw [insertNew]
  cases found : columns.lookup key with
  | some old =>
    by_cases same : reference = key <;> simp [same, found]
  | none =>
    rw [Option.isSome_none, if_neg Bool.false_ne_true, lookup_insert]
    by_cases same : reference = key <;> simp [same, found]

/-- The name and the position of an aggregation are set last; its expression is set only if no
earlier reference is the same text. -/
theorem lookup_addAggregation (aggregation : Aggregation) (i : Nat) :
    (columns.addAggregation aggregation i).lookup reference =
      if reference = "__result" ++ toString i ∨ aggregation.name = some reference then
        some (resultColumn i)
      else (columns.lookup reference).or
        (if reference = aggregation.expression then some (resultColumn i) else none) := by
  obtain ⟨expression, name⟩ := aggregation
  rw [addAggregation, lookup_insert]
  cases name with
  | none => simp [lookup_insertNew]
  | some name =>
    simp only [Option.elim, lookup_insert, lookup_insertNew]
    by_cases last : reference = "__result" ++ toString i
    · simp [last]
    · by_cases named : reference = name
      · simp [named]
      · simp [named, Ne.symm named]

end Lookup

/-- The position of the first aggregation with an expression. -/
def firstWith (expression : String) (aggregations : List Aggregation) : Nat :=
  aggregations.findIdx (·.expression = expression)

/-- The references to the aggregations of a query, with the positions of the aggregations: the
expression of the first that has it, a name, and the position itself. -/
inductive Refers (aggregations : List Aggregation) (reference : String) (i : Nat) : Prop
  | expression {aggregation : Aggregation} : aggregation ∈ aggregations →
      aggregation.expression = reference → i = firstWith reference aggregations →
      Refers aggregations reference i
  | name {aggregation : Aggregation} : aggregations[i]? = some aggregation →
      aggregation.name = some reference → Refers aggregations reference i
  | position : i < aggregations.length → "__result" ++ toString i = reference →
      Refers aggregations reference i

/-- Aggregations whose references are told apart: no two have the same name, no name is an
expression, and no text of theirs starts like a position. -/
structure Apart (aggregations : List Aggregation) : Prop where
  names : (aggregations.filterMap (·.name)).Nodup
  expressions : ∀ a ∈ aggregations, ∀ b ∈ aggregations, a.name ≠ some b.expression
  unreserved : ∀ a ∈ aggregations, ∀ text ∈ texts a, ¬"__result".toList <+: text.toList

variable {aggregations : List Aggregation} {reference : String} {i j : Nat}

theorem Apart.of_append {more : List Aggregation} (apart : Apart (aggregations ++ more)) :
    Apart aggregations where
  names := by
    have names := apart.names
    rw [List.filterMap_append] at names
    exact (List.nodup_append.1 names).1
  expressions a aMem b bMem :=
    apart.expressions a (List.mem_append_left _ aMem) b (List.mem_append_left _ bMem)
  unreserved a mem := apart.unreserved a (List.mem_append_left _ mem)

/-- A reference is a text of an aggregation, or a position. -/
theorem Refers.text_or_position (refers : Refers aggregations reference i) :
    (∃ a ∈ aggregations, reference ∈ texts a) ∨
      i < aggregations.length ∧ "__result" ++ toString i = reference := by
  cases refers with
  | expression mem same _ => exact .inl ⟨_, mem, same ▸ List.mem_cons_self⟩
  | name found named =>
    exact .inl ⟨_, List.mem_of_getElem? found, List.mem_cons_of_mem _ (Option.mem_toList.2 named)⟩
  | position inside same => exact .inr ⟨inside, same⟩

/-- A reference that starts like a position is one. -/
theorem Apart.refers_reserved (apart : Apart aggregations) {tail : String}
    (refers : Refers aggregations ("__result" ++ tail) i) : toString i = tail := by
  rcases refers.text_or_position with ⟨a, mem, isText⟩ | ⟨_, same⟩
  · exact absurd (by simp) (apart.unreserved a mem _ isText)
  · exact (String.append_right_inj _).1 same

theorem toString_inj (same : toString i = toString j) : i = j := by
  rw [Nat.toString_eq_ofList_toDigits, Nat.toString_eq_ofList_toDigits, String.ofList_inj] at same
  rw [← @Nat.ofDigitChars_ten_toDigits i, same, Nat.ofDigitChars_ten_toDigits]

theorem Apart.name_unique (apart : Apart aggregations) {b : Aggregation} {name : String}
    (first : aggregations[i]? = some a) (second : aggregations[j]? = some b)
    (named : a.name = some name) (named' : b.name = some name) : i = j := by
  have distinct := List.pairwise_iff_getElem.1 (List.pairwise_filterMap.1 apart.names)
  obtain ⟨inside, rfl⟩ := List.getElem?_eq_some_iff.1 first
  obtain ⟨inside', rfl⟩ := List.getElem?_eq_some_iff.1 second
  rcases Nat.lt_trichotomy i j with less | same | more
  · exact absurd rfl (distinct i j inside inside' less name named name named')
  · exact same
  · exact absurd rfl (distinct j i inside' inside more name named' name named)

/-- A reference names one aggregation. -/
theorem Apart.refers_unique (apart : Apart aggregations) (first : Refers aggregations reference i)
    (second : Refers aggregations reference j) : i = j := by
  have unnamed : ∀ {i : Nat} {a b : Aggregation}, aggregations[i]? = some a →
      a.name = some reference → b ∈ aggregations → b.expression ≠ reference :=
    fun found named mem same => apart.expressions _ (List.mem_of_getElem? found) _ mem
      (named.trans (congrArg some same.symm))
  cases first with
  | expression mem same least =>
    cases second with
    | expression _ _ least' => rw [least, least']
    | name found named => exact absurd same (unnamed found named mem)
    | position _ same' =>
      subst same'
      exact toString_inj (apart.refers_reserved (.expression mem same least))
  | name found named =>
    cases second with
    | expression mem same _ => exact absurd same (unnamed found named mem)
    | name found' named' => exact apart.name_unique found found' named named'
    | position _ same =>
      subst same
      exact toString_inj (apart.refers_reserved (.name found named))
  | position _ same =>
    subst same
    exact (toString_inj (apart.refers_reserved second)).symm

theorem firstWith_known (mem : a ∈ aggregations) (same : a.expression = reference)
    (more : List Aggregation) :
    firstWith reference (aggregations ++ more) = firstWith reference aggregations := by
  have inside : firstWith reference aggregations < aggregations.length :=
    List.findIdx_lt_length_of_exists ⟨a, mem, decide_eq_true same⟩
  rw [firstWith, List.findIdx_append]
  exact if_pos inside

theorem firstWith_fresh (fresh : ∀ b ∈ aggregations, b.expression ≠ reference)
    (same : a.expression = reference) :
    firstWith reference (aggregations ++ [a]) = aggregations.length := by
  have missed : firstWith reference aggregations = aggregations.length :=
    List.findIdx_eq_length_of_false fun b mem => decide_eq_false (fresh b mem)
  rw [firstWith, List.findIdx_append, if_neg (Nat.lt_irrefl _ <| missed ▸ ·)]
  simp [same]

/-- The references to aggregations stay when another one comes behind them. -/
theorem Refers.concat (refers : Refers aggregations reference i) (a : Aggregation) :
    Refers (aggregations ++ [a]) reference i := by
  cases refers with
  | expression mem same least =>
    exact .expression (List.mem_append_left _ mem) same
      (least.trans (firstWith_known mem same _).symm)
  | name found named =>
    obtain ⟨inside, -⟩ := List.getElem?_eq_some_iff.1 found
    exact .name ((List.getElem?_append_left inside).trans found) named
  | position inside same => exact .position (by simp; omega) same

/-- The other references are to the aggregation that has come. -/
theorem refers_concat (refers : Refers (aggregations ++ [a]) reference i) :
    Refers aggregations reference i ∨ i = aggregations.length ∧
      ("__result" ++ toString i = reference ∨ a.name = some reference ∨
        a.expression = reference) := by
  cases refers with
  | @expression b mem same least =>
    by_cases known : ∃ b ∈ aggregations, b.expression = reference
    · obtain ⟨b, mem, same⟩ := known
      exact .inl (.expression mem same (least.trans (firstWith_known mem same _)))
    · have fresh : ∀ b ∈ aggregations, b.expression ≠ reference :=
        fun b mem same => known ⟨b, mem, same⟩
      obtain rfl : b = a := by
        rcases List.mem_append.1 mem with earlier | last
        · exact absurd same (fresh b earlier)
        · exact List.mem_singleton.1 last
      exact .inr ⟨least.trans (firstWith_fresh fresh same), .inr (.inr same)⟩
  | name found named =>
    rcases Nat.lt_or_ge i aggregations.length with earlier | last
    · exact .inl (.name ((List.getElem?_append_left earlier).symm.trans found) named)
    · obtain ⟨inside, -⟩ := List.getElem?_eq_some_iff.1 found
      simp at inside
      obtain rfl : i = aggregations.length := by omega
      rw [List.getElem?_concat_length] at found
      exact .inr ⟨rfl, .inr (.inl (Option.some.inj found ▸ named))⟩
  | position inside same =>
    rcases Nat.lt_or_ge i aggregations.length with earlier | last
    · exact .inl (.position earlier same)
    · simp at inside
      exact .inr ⟨by omega, .inl same⟩

/-- Columns in which the references to aggregations, and no others, have the columns of the
aggregations that they name. -/
def Attributes (aggregations : List Aggregation) (columns : Columns) : Prop :=
  ∀ reference column, columns.lookup reference = some column ↔
    ∃ i, Refers aggregations reference i ∧ column = resultColumn i

theorem attributes_nil : Attributes [] [] := by
  intro reference column
  constructor
  · intro found
    cases found
  · rintro ⟨i, refers, -⟩
    cases refers with
    | expression mem => cases mem
    | name found => cases found
    | position inside => cases inside

/-- What is found after an aggregation was added are references to it, and those before it. -/
theorem Attributes.named {columns : Columns} {column : String}
    (attributes : Attributes aggregations columns)
    (found : (columns.addAggregation a aggregations.length).lookup reference = some column) :
    ∃ i, Refers (aggregations ++ [a]) reference i ∧ column = resultColumn i := by
  have last : (aggregations ++ [a])[aggregations.length]? = some a := List.getElem?_concat_length
  rw [lookup_addAggregation] at found
  by_cases direct : reference = "__result" ++ toString aggregations.length ∨ a.name = some reference
  · rw [if_pos direct] at found
    refine ⟨aggregations.length, ?_, (Option.some.inj found).symm⟩
    rcases direct with same | named
    · exact .position (by simp) same.symm
    · exact .name last named
  · rw [if_neg direct] at found
    rcases Option.or_eq_some_iff.1 found with old | ⟨fresh, new⟩
    · obtain ⟨i, refers, same⟩ := (attributes _ _).1 old
      exact ⟨i, refers.concat a, same⟩
    · obtain ⟨same, column⟩ := Option.ite_none_right_eq_some.1 new
      -- An earlier aggregation with this expression would have been found.
      have first : ∀ b ∈ aggregations, b.expression ≠ reference := by
        intro b mem repeated
        have known := (attributes _ _).2 ⟨_, .expression mem repeated rfl, rfl⟩
        rw [fresh] at known
        cases known
      have least := (firstWith_fresh first same.symm).symm
      exact ⟨_, .expression (by simp) same.symm least, (Option.some.inj column).symm⟩

theorem Attributes.addAggregation {columns : Columns}
    (attributes : Attributes aggregations columns) (apart : Apart (aggregations ++ [a])) :
    Attributes (aggregations ++ [a]) (columns.addAggregation a aggregations.length) := by
  intro reference column
  refine ⟨attributes.named, ?_⟩
  rintro ⟨i, refers, rfl⟩
  cases found : (columns.addAggregation a aggregations.length).lookup reference with
  | some column =>
    obtain ⟨j, refers', rfl⟩ := attributes.named found
    rw [apart.refers_unique refers refers']
  | none =>
    rw [lookup_addAggregation] at found
    by_cases direct : reference = "__result" ++ toString aggregations.length ∨
        a.name = some reference
    · rw [if_pos direct] at found
      cases found
    · rw [if_neg direct, Option.or_eq_none_iff] at found
      rcases refers_concat refers with old | ⟨rfl, same | named | same⟩
      · rw [(attributes _ _).2 ⟨i, old, rfl⟩] at found
        cases found.1
      · exact absurd (.inl same.symm) direct
      · exact absurd (.inr named) direct
      · rw [if_pos same.symm] at found
        cases found.2

/-- The columns of aggregations, without the short name of a single one. -/
def ofAll (aggregations : List Aggregation) : Columns :=
  aggregations.zipIdx.foldl (fun columns pair => columns.addAggregation pair.1 pair.2) []

theorem Apart.attributes_ofAll (apart : Apart aggregations) :
    Attributes aggregations (ofAll aggregations) := by
  induction aggregations using List.reverseRecOn with
  | nil => exact attributes_nil
  | append_singleton aggregations a ih =>
    have step : ofAll (aggregations ++ [a]) =
        (ofAll aggregations).addAggregation a aggregations.length := by
      simp [ofAll, List.zipIdx_append]
    rw [step]
    exact (ih apart.of_append).addAggregation apart

/-- The short name is no position. -/
theorem Apart.not_refers_short (apart : Apart aggregations) :
    ¬Refers aggregations "__result" i := by
  intro refers
  rw [← @String.append_empty "__result"] at refers
  exact Nat.repr_ne_empty (apart.refers_reserved refers)

theorem lookup_ofAggregations (aggregations : List Aggregation) (reference : String) :
    (ofAggregations aggregations).lookup reference =
      if reference = "__result" ∧ aggregations.length = 1 then some (resultColumn 0)
      else (ofAll aggregations).lookup reference := by
  change List.lookup reference (if aggregations.length = 1 then
    insert "__result" (resultColumn 0) (ofAll aggregations) else ofAll aggregations) = _
  by_cases single : aggregations.length = 1
  · simp only [single, if_true, lookup_insert, and_true]
  · simp only [single, if_false, and_false]

/-- Each reference of a condition is attributed to its own aggregation, if the aggregations are
told apart: a name and a position to the aggregation that has it, an expression to the first that
has it, and the short name to a single one. There are no other references, and none is there
twice. -/
theorem references_attributed (apart : Apart aggregations) :
    let columns := ofAggregations aggregations
    (∀ i aggregation, aggregations[i]? = some aggregation →
      (∀ name, aggregation.name = some name → columns.lookup name = some (resultColumn i)) ∧
      columns.lookup ("__result" ++ toString i) = some (resultColumn i) ∧
      columns.lookup aggregation.expression =
        some (resultColumn (firstWith aggregation.expression aggregations))) ∧
    columns.lookup "__result" =
      (if aggregations.length = 1 then some (resultColumn 0) else none) ∧
    columns.references.Nodup ∧
    ∀ reference ∈ columns.references,
      (∃ aggregation ∈ aggregations, reference ∈ texts aggregation) ∨
      (∃ i < aggregations.length, reference = "__result" ++ toString i) ∨
      reference = "__result" ∧ aggregations.length = 1 := by
  intro columns
  have attributes := apart.attributes_ofAll
  have attributed : ∀ {reference i}, Refers aggregations reference i →
      columns.lookup reference = some (resultColumn i) := by
    intro reference i refers
    rw [lookup_ofAggregations, if_neg, attributes]
    · exact ⟨i, refers, rfl⟩
    · rintro ⟨rfl, -⟩
      exact apart.not_refers_short refers
  have made : columns.Made fun _ => True :=
    made_ofAggregations trivial (fun _ => trivial) fun _ _ _ _ => trivial
  refine ⟨fun i aggregation found => ⟨fun name named => attributed (.name found named),
    attributed (.position (List.getElem?_eq_some_iff.1 found).1 rfl),
    attributed (.expression (List.mem_of_getElem? found) rfl rfl)⟩, ?_, made.sorted.nodup, ?_⟩
  · rw [lookup_ofAggregations]
    by_cases single : aggregations.length = 1
    · rw [if_pos ⟨rfl, single⟩, if_pos single]
    · rw [if_neg fun short => single short.2, if_neg single]
      cases found : (ofAll aggregations).lookup "__result" with
      | none => rfl
      | some column =>
        obtain ⟨i, refers, -⟩ := (attributes _ _).1 found
        exact absurd refers apart.not_refers_short
  · intro reference isReference
    obtain ⟨entry, mem, rfl⟩ := List.mem_map.1 isReference
    have found := lookup_of_mem made.sorted.nodup mem
    by_cases short : entry.1 = "__result" ∧ aggregations.length = 1
    · exact .inr (.inr short)
    · rw [lookup_ofAggregations, if_neg short] at found
      obtain ⟨i, refers, -⟩ := (attributes _ _).1 found
      rcases refers.text_or_position with text | ⟨inside, same⟩
      · exact .inl text
      · exact .inr (.inl ⟨i, inside, same.symm⟩)

/-- The last of three aggregations has a name, and the expression of the first. -/
theorem references_attributed_repeated :
    let aggregations : List Aggregation := [⟨"count()", some "total"⟩, ⟨"sum(a)", none⟩,
      ⟨"count()", some "again"⟩]
    Apart aggregations ∧
      (ofAggregations aggregations).lookup "again" = some "__result_2" ∧
      (ofAggregations aggregations).lookup "__result2" = some "__result_2" ∧
      (ofAggregations aggregations).lookup "count()" = some "__result_0" ∧
      (ofAggregations aggregations).lookup "__result" = none := by
  intro aggregations
  have apart : Apart aggregations := ⟨by decide, by decide, by decide⟩
  obtain ⟨attributed, short, -⟩ := references_attributed apart
  obtain ⟨names, position, expression⟩ := attributed 2 _ rfl
  exact ⟨apart, names "again" rfl, position, expression.trans (by decide), short⟩

end TelemetryQuery.Having.Columns
