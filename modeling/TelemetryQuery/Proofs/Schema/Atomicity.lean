import TelemetryQuery.Proofs.Schema.Binding
/- Conditions are all or nothing. A builder that refuses a condition has bound nothing for it, and
one that writes it has bound one value for each of its placeholders, in their order. -/
namespace TelemetryQuery.Schema

open TelemetryQuery.Field (Key)
open TelemetryQuery.Sql (Fragment Piece Script Builder)

variable {fragment : Fragment} {key : Key} {operator : Operator} {table : Table}

/-- A builder that leaves what was bound as it was if it refuses. -/
def Atomic (run : Builder (Except Refusal Script)) : Prop :=
  ∀ bound reason, (run.result bound).1 = .error reason → (run.result bound).2 = bound

theorem Follows.atomic {run : Builder (Except Refusal Script)}
    (follows : Follows run (.ok fragment)) : Atomic run := by
  intro bound reason refused
  rw [follows bound] at refused
  cases refused

theorem atomic_refuse (reason : Refusal) : Atomic (return .error reason) :=
  fun _ _ _ => rfl

namespace Table

theorem atomic_range (column : String) (operator : Operator) (value : Value) :
    Atomic (bindRange column operator value) := by
  unfold bindRange
  split
  · next low high => exact (follows_range column operator (.list [low, high])).atomic
  · exact atomic_refuse _

theorem atomic_members (column : String) (operator : Operator) (values : List Value) :
    Atomic (bindMembers column operator values) := by
  have follows := follows_members column operator values
  unfold members at follows
  split at follows
  · next none =>
    rw [bindMembers, if_pos none]
    exact atomic_refuse _
  · exact follows.atomic

theorem atomic_membership (column : String) (operator : Operator) (value : Value) :
    Atomic (bindMembership column operator value) := by
  cases value <;> exact atomic_members column operator _

theorem atomic_test (table : Table) (key : Key) (mapped column : String) (operator : Operator)
    (value : Value) : Atomic (table.bindTest key mapped column operator value) := by
  cases operator with
  | equal | notEqual | greater | greaterEq | less | lessEq | like | notLike =>
    exact (builds_compare column _ value).follows.atomic
  | ilike | notIlike => exact (builds_enclosed _ value).follows.atomic
  | contains | notContains => exact (builds_enclosed _ _).follows.atomic
  | regexp | notRegexp => exact (builds_enclosed _ value).follows.atomic
  | between | notBetween => exact atomic_range column _ value
  | isIn | notIn => exact atomic_membership column _ value
  | exist | notExist => exact (follows_text _).atomic
  | unknown => exact atomic_refuse _

/-- A field without a column and a refused test are refused before anything is bound, and the guard
refuses nothing. -/
theorem atomic_condition (table : Table) (key : Key) (operator : Operator) (value : Value) :
    Atomic (table.bindCondition key operator value) := by
  unfold bindCondition
  cases table.field key with
  | error reason => exact atomic_refuse reason
  | ok mapped =>
    have tested := table.atomic_test key mapped (alignTypes key.type mapped operator value).1
      operator (alignTypes key.type mapped operator value).2
    intro bound reason refused
    dsimp only at refused ⊢
    rw [Builder.result_bind] at refused ⊢
    cases outcome : ((table.bindTest key mapped (alignTypes key.type mapped operator value).1
        operator (alignTypes key.type mapped operator value).2).result bound).1 with
    | error other =>
      simp only [outcome] at refused ⊢
      exact tested bound other outcome
    | ok script =>
      simp only [outcome, Builder.result_map] at refused
      cases refused

/-- The test that a field is there stands behind the condition that it guards, and so does its
value. -/
theorem guard_last {place : MapPlace} (placed : table.mapPlace? key = some place)
    (implies : operator.impliesExistence = true) (inner : Fragment) :
    (table.guard key operator inner).sql = "(" ++ inner.sql ++ " AND mapContains(" ++ place.map ++
        ", '" ++ place.key ++ "') = ?)" ∧
      (table.guard key operator inner).arguments = inner.arguments ++ [Value.bool true] := by
  simp only [guard, placed, implies, if_true]
  refine ⟨String.toList_injective ?_, by simp⟩
  simp [Fragment.sql, String.toList_join, Piece.sql]

/-- What a condition guards is a test, without a question mark but its placeholders if the name of
the field has none. -/
theorem condition_guarded {value : Value} (ok : table.condition key operator value = .ok fragment)
    (plain : '?' ∉ key.name.toList) :
    ∃ inner : Fragment, fragment = table.guard key operator inner ∧ inner.Plain := by
  obtain ⟨column, inner, mapped, tested, rfl⟩ := condition_ok ok
  have plainColumn := field_plain mapped plain
  exact ⟨inner, rfl, (test_written tested).2 plain plainColumn (alignTypes_plain plainColumn)⟩

/-- What a builder that had some values bound writes for a condition that binds further values. If
placeholders are numbered when their values are bound, then what is read as placeholders, from left
to right, are those of the further values from the first to the last. The last one is the value of
the guard if there is one. -/
structure Appends (table : Table) (key : Key) (operator : Operator) (bound further : List Value)
    (script : Script) : Prop where
  count : script.sql.toList.count '?' = further.length
  placeholders : script.placeholders = (List.range' bound.length further.length).map .hole
  guarded : ∀ place, table.mapPlace? key = some place → operator.impliesExistence = true →
    ∃ test values, script.sql = "(" ++ test ++ " AND mapContains(" ++ place.map ++ ", '" ++
        place.key ++ "') = ?)" ∧
      test.toList.count '?' = values.length ∧ further = values ++ [Value.bool true]

theorem appends_mark {value : Value} (ok : table.condition key operator value = .ok fragment)
    (plain : '?' ∉ key.name.toList) (bound : List Value) :
    Appends table key operator bound fragment.arguments (fragment.mark bound.length) := by
  have plainFragment := (condition_written ok).2 plain
  have written := Fragment.sql_mark bound.length fragment
  refine ⟨?_, Fragment.placeholders_mark plainFragment bound.length, ?_⟩
  · rw [written, Fragment.count_sql plainFragment]
  · intro place placed implies
    obtain ⟨inner, rfl, plainInner⟩ := condition_guarded ok plain
    obtain ⟨sql, arguments⟩ := guard_last placed implies inner
    exact ⟨inner.sql, inner.arguments, written.trans sql, Fragment.count_sql plainInner, arguments⟩

/-- Writing a condition on a field whose name has no question mark either refuses it and leaves
what was bound as it was, or binds further values, as many as the condition has question marks and
in their order. -/
theorem condition_appends {table : Table} {key : Key} (plain : '?' ∉ key.name.toList)
    (operator : Operator) (value : Value) (bound : List Value) :
    (∃ reason, table.condition key operator value = .error reason ∧
      (table.bindCondition key operator value).result bound = (.error reason, bound)) ∨
    ∃ fragment script, table.condition key operator value = .ok fragment ∧
      (table.bindCondition key operator value).result bound =
        (.ok script, bound ++ fragment.arguments) ∧
      script.sql = fragment.sql ∧
      Appends table key operator bound fragment.arguments script := by
  have follows := table.follows_condition key operator value
  cases ok : table.condition key operator value with
  | error reason =>
    rw [ok] at follows
    have refused := follows bound
    exact .inl ⟨reason, rfl, Prod.ext refused (table.atomic_condition key operator value bound
      reason refused)⟩
  | ok fragment =>
    rw [ok] at follows
    exact .inr ⟨fragment, fragment.mark bound.length, rfl, follows bound,
      Fragment.sql_mark bound.length fragment, appends_mark ok plain bound⟩

/-- A list inside a list and a question mark are bound behind what was bound before. -/
theorem condition_appends_nested :
    let key : Key := { name := "d", context := .attributes, type := .number }
    let value : Value := .list [.list [], .text "?"]
    '?' ∉ key.name.toList ∧
    ∃ fragment script, Table.logs.condition key .isIn value = .ok fragment ∧
      (Table.logs.bindCondition key .isIn value).result [.null] =
        (.ok script, .null :: fragment.arguments) ∧
      Appends Table.logs key .isIn [.null] fragment.arguments script := by
  intro key value
  have plain : '?' ∉ key.name.toList := by decide
  refine ⟨plain, ?_⟩
  obtain ⟨reason, refused, -⟩ | ⟨fragment, script, ok, result, -, appends⟩ :=
    @condition_appends Table.logs key plain .isIn value [.null]
  · cases refused
  · exact ⟨fragment, script, ok, result, appends⟩

end Table

end TelemetryQuery.Schema
