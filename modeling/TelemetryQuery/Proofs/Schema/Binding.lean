import TelemetryQuery.Proofs.Sql.Builder
import TelemetryQuery.Schema.Condition
/- Conditions on fields as a builder writes them. -/
namespace TelemetryQuery.Schema

open TelemetryQuery.Field (Key DataType)
open TelemetryQuery.Sql (Fragment Piece Script Builder)

variable {fragment : Fragment} {key : Key} {operator : Operator} {table : Table} {value : Value}

/-- A builder that writes a fragment and binds its values, whatever was bound before. -/
def Builds (run : Builder Script) (fragment : Fragment) : Prop :=
  ∀ bound, run.result bound = (fragment.mark bound.length, bound ++ fragment.arguments)

/-- A builder that writes the fragment that there is, or refuses as there is none. What it has
bound until then does not matter. -/
def Follows (run : Builder (Except Refusal Script)) : Except Refusal Fragment → Prop
  | .ok fragment => ∀ bound,
    run.result bound = (.ok (fragment.mark bound.length), bound ++ fragment.arguments)
  | .error reason => ∀ bound, (run.result bound).1 = .error reason

theorem Builds.follows {run : Builder Script} (builds : Builds run fragment) :
    Follows (.ok <$> run) (.ok fragment) := by
  intro bound
  simp [builds bound]

namespace Table

def bindCompare (column operator : String) (value : Value) : Builder Script := do
  let hole ← Builder.var value
  return .ofText (column ++ " " ++ operator ++ " ") ++ hole

theorem builds_compare (column operator : String) (value : Value) :
    Builds (bindCompare column operator value) (compare column operator value) := by
  intro bound
  simp [bindCompare, compare]

/-- A value inside the brackets of a function. -/
def bindEnclosed (opening : String) (value : Value) : Builder Script := do
  let hole ← Builder.var value
  return .ofText opening ++ hole ++ .ofText ")"

theorem builds_enclosed (opening : String) (value : Value) :
    Builds (bindEnclosed opening value) [.text opening, .bound value, .text ")"] := by
  intro bound
  simp [bindEnclosed]

def bindCaseless (column operator : String) (value : Value) : Builder Script :=
  bindEnclosed ("LOWER(" ++ column ++ ") " ++ operator ++ " LOWER(") value

def bindContainment (key : Key) (column operator : String) (value : Value) : Builder Script :=
  bindCaseless (asText key column) operator (.text ("%" ++ value.display ++ "%"))

def bindRange (column : String) (operator : Operator) (value : Value) :
    Builder (Except Refusal Script) :=
  match value with
  | .list [low, high] => do
    let low ← Builder.var low
    let high ← Builder.var high
    return .ok (.ofText (column ++ " " ++ operator.text ++ " ") ++ low ++ .ofText " AND " ++ high)
  | _ => return .error (.needsTwo operator)

theorem follows_range (column : String) (operator : Operator) (value : Value) :
    Follows (bindRange column operator value) (range column operator value) := by
  by_cases two : ∃ low high, value = .list [low, high]
  · obtain ⟨low, high, rfl⟩ := two
    intro bound
    simp [bindRange]
  · have refused : range column operator value = .error (.needsTwo operator) := by
      unfold range
      split
      · next low high => exact absurd ⟨low, high, rfl⟩ two
      · rfl
    have stops : bindRange column operator value = return .error (.needsTwo operator) := by
      unfold bindRange
      split
      · next low high => exact absurd ⟨low, high, rfl⟩ two
      · rfl
    rw [refused, stops]
    exact fun _ => rfl

def bindMembers (column : String) (operator : Operator) (values : List Value) :
    Builder (Except Refusal Script) :=
  if values.isEmpty then return .error (.needsOne operator)
  else do
    -- All values are bound before any of the text is put together.
    let holes ← values.mapM Builder.var
    return .ok (.ofText (column ++ " " ++ operator.text ++ " (") ++ Script.joinWith ", " holes ++
      .ofText ")")

def bindMembership (column : String) (operator : Operator) : Value → Builder (Except Refusal Script)
  | .list items => bindMembers column operator items
  | single => bindMembers column operator [single]

/-- Values are bound one after the other. -/
theorem result_var_each (values bound : List Value) :
    (values.mapM Builder.var).result bound =
      (Fragment.markEach bound.length (values.map fun value => [.bound value]),
        bound ++ values) := by
  induction values generalizing bound with
  | nil => simp [Fragment.markEach]
  | cons value values ih => simp [ih, Fragment.markEach]

def members (column : String) (operator : Operator) (values : List Value) :
    Except Refusal Fragment :=
  if values.isEmpty then .error (.needsOne operator)
  else
    .ok (.text (column ++ " " ++ operator.text ++ " (") ::
      Fragment.joinWith ", " (values.map fun v => [.bound v]) ++ [.text ")"])

theorem follows_members (column : String) (operator : Operator) (values : List Value) :
    Follows (bindMembers column operator values) (members column operator values) := by
  unfold bindMembers members
  split
  · intro bound
    simp
  · intro bound
    simp [result_var_each, Fragment.mark_joinWith, Fragment.arguments_joinWith, List.flatMap_map]

theorem follows_membership (column : String) (operator : Operator) (value : Value) :
    Follows (bindMembership column operator value) (membership column operator value) := by
  cases value <;> exact follows_members column operator _

def bindTest (table : Table) (key : Key) (mapped column : String) (operator : Operator)
    (value : Value) : Builder (Except Refusal Script) :=
  match operator with
  | .equal => .ok <$> bindCompare column "=" value
  | .notEqual => .ok <$> bindCompare column "<>" value
  | .greater => .ok <$> bindCompare column ">" value
  | .greaterEq => .ok <$> bindCompare column ">=" value
  | .less => .ok <$> bindCompare column "<" value
  | .lessEq => .ok <$> bindCompare column "<=" value
  | .like => .ok <$> bindCompare column "LIKE" value
  | .notLike => .ok <$> bindCompare column "NOT LIKE" value
  | .ilike => .ok <$> bindCaseless column "LIKE" value
  | .notIlike => .ok <$> bindCaseless column "NOT LIKE" value
  | .contains => .ok <$> bindContainment key column "LIKE" value
  | .notContains => .ok <$> bindContainment key column "NOT LIKE" value
  | .regexp => .ok <$> bindEnclosed ("match(" ++ column ++ ", ") value
  | .notRegexp => .ok <$> bindEnclosed ("NOT match(" ++ column ++ ", ") value
  | .between => bindRange column operator value
  | .notBetween => bindRange column operator value
  | .isIn => bindMembership column operator value
  | .notIn => bindMembership column operator value
  | .exist => return .ok (.ofText (table.existence key mapped false))
  | .notExist => return .ok (.ofText (table.existence key mapped true))
  | .unknown => return .error (.unsupported operator)

theorem follows_text (text : String) :
    Follows (return .ok (.ofText text)) (.ok (.ofText text)) := by
  intro bound
  simp [Fragment.ofText]

theorem follows_test (table : Table) (key : Key) (mapped column : String) (operator : Operator)
    (value : Value) :
    Follows (table.bindTest key mapped column operator value)
      (table.test key mapped column operator value) := by
  cases operator with
  | equal | notEqual | greater | greaterEq | less | lessEq | like | notLike =>
    exact (builds_compare column _ value).follows
  | ilike | notIlike => exact (builds_enclosed _ value).follows
  | contains | notContains => exact (builds_enclosed _ _).follows
  | regexp | notRegexp => exact (builds_enclosed _ value).follows
  | between | notBetween => exact follows_range column _ value
  | isIn | notIn => exact follows_membership column _ value
  | exist | notExist => exact follows_text _
  | unknown => exact fun _ => rfl

def bindGuard (table : Table) (key : Key) (operator : Operator) (script : Script) :
    Builder Script :=
  match table.mapPlace? key with
  | some place =>
    if operator.impliesExistence then do
      let hole ← Builder.var (.bool true)
      return .ofText "(" ++ script ++
        .ofText (" AND mapContains(" ++ place.map ++ ", '" ++ place.key ++ "') = ") ++ hole ++
        .ofText ")"
    else return script
  | none => return script

/-- The value of a guard is bound after those of its condition. -/
theorem result_guard (table : Table) (key : Key) (operator : Operator) (condition : Fragment)
    (bound : List Value) :
    (table.bindGuard key operator (condition.mark bound.length)).result
        (bound ++ condition.arguments) =
      ((table.guard key operator condition).mark bound.length,
        bound ++ (table.guard key operator condition).arguments) := by
  unfold bindGuard guard
  cases table.mapPlace? key with
  | none => rfl
  | some place =>
    dsimp only
    split
    · simp
    · rfl

/-- A condition, written while its values are bound. -/
def bindCondition (table : Table) (key : Key) (operator : Operator) (value : Value) :
    Builder (Except Refusal Script) :=
  match table.field key with
  | .error reason => return .error reason
  | .ok mapped => do
    let (column, value) := alignTypes key.type mapped operator value
    match ← table.bindTest key mapped column operator value with
    | .error reason => return .error reason
    | .ok script => .ok <$> table.bindGuard key operator script

theorem condition_eq (table : Table) (key : Key) (operator : Operator) (value : Value) :
    table.condition key operator value =
      (table.field key).bind fun mapped =>
        (table.test key mapped (alignTypes key.type mapped operator value).1 operator
          (alignTypes key.type mapped operator value).2).map (table.guard key operator) := by
  unfold condition
  cases table.field key with
  | error reason => rfl
  | ok mapped =>
    change (table.test _ _ _ _ _ >>= fun fragment => pure (table.guard key operator fragment)) = _
    rw [bind_pure_comp]
    rfl

theorem follows_condition (table : Table) (key : Key) (operator : Operator) (value : Value) :
    Follows (table.bindCondition key operator value) (table.condition key operator value) := by
  rw [condition_eq, bindCondition]
  cases table.field key with
  | error reason => exact fun _ => rfl
  | ok mapped =>
    have tested := table.follows_test key mapped (alignTypes key.type mapped operator value).1
      operator (alignTypes key.type mapped operator value).2
    rw [Except.bind]
    generalize table.test _ _ _ _ _ = result at tested ⊢
    cases result with
    | error reason =>
      intro bound
      simp [tested bound]
    | ok fragment =>
      intro bound
      simp [tested bound, result_guard]

theorem range_ok {column : String} (ok : range column operator value = .ok fragment) :
    ∃ low high, fragment =
      [.text (column ++ " " ++ operator.text ++ " "), .bound low, .text " AND ", .bound high] := by
  unfold range at ok
  split at ok
  · next low high => exact ⟨low, high, (Except.ok.inj ok).symm⟩
  · cases ok

theorem members_ok {column : String} {values : List Value}
    (ok : members column operator values = .ok fragment) :
    ∃ values : List Value, fragment =
      .text (column ++ " " ++ operator.text ++ " (") ::
        Fragment.joinWith ", " (values.map fun v => [.bound v]) ++ [.text ")"] := by
  unfold members at ok
  split at ok
  · cases ok
  · exact ⟨values, (Except.ok.inj ok).symm⟩

theorem membership_ok {column : String} (ok : membership column operator value = .ok fragment) :
    ∃ values : List Value, fragment =
      .text (column ++ " " ++ operator.text ++ " (") ::
        Fragment.joinWith ", " (values.map fun v => [.bound v]) ++ [.text ")"] := by
  cases value <;> exact members_ok ok

theorem operator_plain (operator : Operator) : '?' ∉ operator.text.toList := by
  cases operator <;> decide

theorem escapeText_plain {text : String} (plain : '?' ∉ text.toList) :
    '?' ∉ (escapeText text).toList := by
  simp only [escapeText, Text.escape, String.toList_ofList, List.mem_flatMap, not_exists, not_and]
  intro c mem within
  have other : '?' ≠ c := fun same => plain (same ▸ mem)
  split at within <;> simp [other] at within

theorem replaceAll_plain {part replacement text : List Char} (plain : '?' ∉ text)
    (plainNew : '?' ∉ replacement) : '?' ∉ Text.replaceAll part replacement text := by
  fun_induction Text.replaceAll part replacement text with
  | case1 => exact plain
  | case2 c text _ ih =>
    have rest : '?' ∉ text.drop (part.length - 1) := fun mem =>
      plain (List.mem_cons_of_mem _ (List.mem_of_mem_drop mem))
    simp [plainNew, ih rest]
  | case3 c text _ ih =>
    simp only [List.mem_cons, not_or] at plain ⊢
    exact ⟨plain.1, ih plain.2⟩

theorem typeName_plain (type : DataType) : '?' ∉ (typeName type).toList := by
  cases type <;> decide

theorem mapPlace?_plain {place : MapPlace} (found : table.mapPlace? key = some place)
    (plain : '?' ∉ key.name.toList) : '?' ∉ place.map.toList ∧ '?' ∉ place.key.toList := by
  unfold mapPlace? at found
  split at found
  · cases found
  · dsimp only at found
    have plainKey := escapeText_plain plain
    split at found <;> cases found <;> simp [plainKey, typeName_plain]

theorem materializedColumn_plain (plain : '?' ∉ key.name.toList) :
    '?' ∉ (materializedColumn key).toList := by
  have replaced : '?' ∉ Text.replaceAll ['.'] ['$', '$'] key.name.toList :=
    replaceAll_plain plain (by decide)
  unfold materializedColumn
  split <;> simp [typeName_plain, replaced]

theorem bodyPath_plain {name : String} (plain : '?' ∉ name.toList) :
    '?' ∉ (bodyPath name).toList := by
  simp [bodyPath, escapeText_plain plain]

theorem bodyField_plain (plain : '?' ∉ key.name.toList) : '?' ∉ (bodyField key).toList := by
  unfold bodyField
  split <;> simp [bodyPath_plain plain]

theorem field_plain {column : String} (found : table.field key = .ok column)
    (plain : '?' ∉ key.name.toList) : '?' ∉ column.toList := by
  unfold field at found
  split at found
  · cases found
    exact plain
  · split at found
    · cases found
      exact bodyField_plain plain
    · split at found
      · cases found
        exact materializedColumn_plain plain
      · split at found
        · next place placed =>
          obtain ⟨plainMap, plainKey⟩ := mapPlace?_plain placed plain
          cases found
          simp [plainMap, plainKey]
        · cases found

theorem alignTypes_plain {type : DataType} {column : String} (plain : '?' ∉ column.toList) :
    '?' ∉ (alignTypes type column operator value).1.toList := by
  unfold alignTypes
  split
  · split
    · split <;> simp [plain]
    · simp [plain]
  · simp [plain]
  · simp [plain]
  · split <;> simp [plain]
  · simp [plain]
  · simp [plain]

theorem existence_visible (table : Table) (key : Key) (column : String) (negated : Bool) :
    (table.existence key column negated).toList ≠ [] := by
  unfold existence
  dsimp only
  split
  · simp
  · split
    · simp
    · split <;> simp

theorem existence_plain {column : String} {negated : Bool} (plainName : '?' ∉ key.name.toList)
    (plain : '?' ∉ column.toList) : '?' ∉ (table.existence key column negated).toList := by
  have negation : '?' ∉ (if negated = true then "NOT " else "").toList := by
    split <;> decide
  unfold existence
  dsimp only
  split
  · simp [negation, bodyPath_plain plainName]
  · split
    · next place placed =>
      obtain ⟨plainMap, plainKey⟩ := mapPlace?_plain placed plainName
      simp [negation, plainMap, plainKey]
    · split <;> simp [plain]

/-- A test is written as something, and without a question mark but its placeholders if the field
has none in its name and columns. -/
theorem test_written {mapped column : String}
    (tested : table.test key mapped column operator value = .ok fragment) :
    fragment.Visible ∧ ('?' ∉ key.name.toList → '?' ∉ mapped.toList → '?' ∉ column.toList →
      fragment.Plain) := by
  cases operator with
  | equal | notEqual | greater | greaterEq | less | lessEq | like | notLike =>
    cases tested
    exact ⟨fun _ => by simp [compare], fun _ _ plain => by simp [compare, plain]⟩
  | ilike | notIlike =>
    cases tested
    exact ⟨fun _ => by simp [compareCaseless], fun _ _ plain => by simp [compareCaseless, plain]⟩
  | contains | notContains =>
    cases tested
    refine ⟨fun _ => by simp [containment, compareCaseless], fun _ _ plain => ?_⟩
    simp only [containment, compareCaseless, asText]
    split <;> simp [plain]
  | regexp | notRegexp =>
    cases tested
    exact ⟨fun _ => by simp, fun _ _ plain => by simp [plain]⟩
  | between | notBetween =>
    obtain ⟨low, high, rfl⟩ := range_ok tested
    exact ⟨fun _ => by simp, fun _ _ plain => by simp [plain, operator_plain]⟩
  | isIn | notIn =>
    obtain ⟨values, rfl⟩ := membership_ok tested
    refine ⟨fun _ => by simp [Script.ofText], fun _ _ plain => ?_⟩
    have listed : Fragment.Plain (Fragment.joinWith ", " (values.map fun v => [.bound v])) :=
      Fragment.plain_joinWith (by decide) (by simp)
    simp [plain, operator_plain, listed]
  | exist | notExist =>
    cases tested
    refine ⟨fun _ => ?_, fun plainName plain _ => ?_⟩
    · simpa [Fragment.ofText, Script.ofText] using existence_visible table key mapped _
    · simp [Fragment.ofText, existence_plain plainName plain]
  | unknown => cases tested

theorem guard_written (table : Table) (key : Key) (operator : Operator) {condition : Fragment}
    (visible : condition.Visible) :
    (table.guard key operator condition).Visible ∧
      ('?' ∉ key.name.toList → condition.Plain → (table.guard key operator condition).Plain) := by
  unfold guard
  split
  · next place placed =>
    split
    · refine ⟨fun _ => by simp [Script.ofText], fun plainName plain => ?_⟩
      obtain ⟨plainMap, plainKey⟩ := mapPlace?_plain placed plainName
      simp [plain, plainMap, plainKey]
    · exact ⟨visible, fun _ plain => plain⟩
  · exact ⟨visible, fun _ plain => plain⟩

/-- A condition that is not refused guards a test of the column that its field has. -/
theorem condition_ok (ok : table.condition key operator value = .ok fragment) :
    ∃ mapped inner, table.field key = .ok mapped ∧
      table.test key mapped (alignTypes key.type mapped operator value).1 operator
        (alignTypes key.type mapped operator value).2 = .ok inner ∧
      fragment = table.guard key operator inner := by
  rw [condition_eq] at ok
  cases mapped : table.field key with
  | error reason =>
    rw [mapped] at ok
    cases ok
  | ok column =>
    rw [mapped, Except.bind] at ok
    generalize tested : table.test key column _ operator _ = result at ok
    cases result with
    | error reason => cases ok
    | ok inner =>
      cases ok
      exact ⟨column, inner, rfl, tested, rfl⟩

/-- A condition is written as something, and without a question mark but its placeholders if the
name of its field has none. -/
theorem condition_written (ok : table.condition key operator value = .ok fragment) :
    fragment.Visible ∧ ('?' ∉ key.name.toList → fragment.Plain) := by
  obtain ⟨column, inner, mapped, tested, rfl⟩ := condition_ok ok
  obtain ⟨visible, plainTest⟩ := test_written tested
  obtain ⟨guarded, plainGuard⟩ := guard_written table key operator visible
  refine ⟨guarded, fun plain => plainGuard plain ?_⟩
  have plainColumn := field_plain mapped plain
  exact plainTest plain plainColumn (alignTypes_plain plainColumn)

end Table

end TelemetryQuery.Schema
