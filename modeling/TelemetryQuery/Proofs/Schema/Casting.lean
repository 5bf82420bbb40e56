import TelemetryQuery.Proofs.Schema.Binding
/- Casts of columns against the types of the values that they are compared with. A column is
compared as text exactly with values that are texts, but for lists of texts. -/
namespace TelemetryQuery

variable {type : DataType} {key : Key} {items : List Value} {table : Table} {value : Value}

/-- Values of one type: a text, a number or a flag, or some texts, or some numbers. -/
def Value.Uniform : Value → Prop
  | null => False
  | list items => items ≠ [] ∧
    ((∀ item ∈ items, item.isText = true) ∨ ∀ item ∈ items, item.isNumber = true)
  | _ => True

namespace Schema

open TelemetryQuery.Field (Key DataType)
open TelemetryQuery.Sql (Fragment Piece)

/-- What is done to a column before it is compared. -/
inductive Cast where
  | none
  | text
  | number
deriving DecidableEq, Repr

namespace Cast

def opening : Cast → String
  | none => ""
  | text => "toString("
  | number => "toFloat64OrNull("

def closing : Cast → String
  | none => ""
  | _ => ")"

def apply (cast : Cast) (column : String) : String :=
  cast.opening ++ column ++ cast.closing

theorem apply_none (column : String) : apply none column = column := by
  simp [apply, opening, closing]

/-- The three casts are told apart by how much they add to a column. -/
theorem apply_injective {a b : Cast} {column : String} (same : a.apply column = b.apply column) :
    a = b := by
  have lengths := congrArg String.length same
  simp only [apply, String.length_append] at lengths
  have added : a.opening.length + a.closing.length = b.opening.length + b.closing.length := by
    omega
  revert added
  cases a <;> cases b <;> decide

/-- Whether a column of a type is compared as text after a cast. -/
def Textual (type : DataType) : Cast → Prop
  | none => type = .string
  | text => True
  | number => False

theorem textual_none : Textual .string none :=
  rfl

theorem textual_text (type : DataType) : Textual type text :=
  trivial

theorem not_textual_none (other : type ≠ .string) : ¬Textual type none :=
  other

theorem not_textual_number (type : DataType) : ¬Textual type number :=
  id

end Cast

def relations : List Operator :=
  [.equal, .notEqual, .less, .lessEq, .greater, .greaterEq]

def ranges : List Operator :=
  [.between, .notBetween]

def memberships : List Operator :=
  [.isIn, .notIn]

/-- The sign of an operator in SQL. -/
def sign : Operator → String
  | .notEqual => "<>"
  | operator => operator.text

/-- How the comparison of a column with some values is written. -/
inductive Compares (column : String) : Operator → List Value → Fragment → Prop
  | relation {operator : Operator} (value : Value) : operator ∈ relations →
      Compares column operator [value] [.text (column ++ " " ++ sign operator ++ " "), .bound value]
  | range {operator : Operator} (low high : Value) : operator ∈ ranges →
      Compares column operator [low, high]
        [.text (column ++ " " ++ sign operator ++ " "), .bound low, .text " AND ", .bound high]
  | membership {operator : Operator} (values : List Value) : operator ∈ memberships →
      Compares column operator values
        (.text (column ++ " " ++ sign operator ++ " (") ::
          Fragment.joinWith ", " (values.map fun value => [.bound value]) ++ [Piece.text ")"])

namespace Compares

variable {column other : String} {operator : Operator} {values : List Value} {inner : Fragment}

theorem arguments (compares : Compares column operator values inner) :
    inner.arguments = values := by
  cases compares with
  | relation value _ => rfl
  | range low high _ => rfl
  | membership values _ => simp [Fragment.arguments_joinWith, List.flatMap_map]

/-- The column of a comparison is seen from its first words. -/
theorem column_eq {others : List Value} (compares : Compares column operator values inner)
    (also : Compares other operator others inner) : column = other := by
  have first : ∀ {column values}, Compares column operator values inner → ∃ rest,
      inner = .text (column ++ " " ++ sign operator ++
        if operator ∈ memberships then " (" else " ") :: rest := by
    intro column values compares
    cases compares with
    | relation value mem =>
      have single : operator ∉ memberships := by revert mem; cases operator <;> decide
      exact ⟨_, by rw [if_neg single]⟩
    | range low high mem =>
      have two : operator ∉ memberships := by revert mem; cases operator <;> decide
      exact ⟨_, by rw [if_neg two]⟩
    | membership values mem => exact ⟨_, by rw [if_pos mem]; rfl⟩
  obtain ⟨rest, shown⟩ := first compares
  obtain ⟨rest', same⟩ := first also
  rw [shown] at same
  have texts := Piece.text.inj (List.cons.inj same).1
  rwa [String.append_left_inj, String.append_left_inj, String.append_left_inj] at texts

end Compares

/-- The values that a comparison binds: the items of a list for an operator that takes several, and
otherwise the value itself. -/
def boundValues (operator : Operator) : Value → List Value
  | .list items => if operator ∈ relations then [.list items] else items
  | value => [value]

theorem boundValues_relation {operator : Operator} (mem : operator ∈ relations) (value : Value) :
    boundValues operator value = [value] := by
  cases value with
  | list items => exact if_pos mem
  | _ => rfl

theorem membership_eq {operator : Operator} (several : operator ∉ relations) (column : String)
    (value : Value) :
    Table.membership column operator value =
      Table.members column operator (boundValues operator value) := by
  cases value with
  | list items =>
    rw [boundValues, if_neg several]
    rfl
  | _ => rfl

theorem test_compares {mapped column : String} {operator : Operator} {inner : Fragment}
    (comparing : operator ∈ relations ++ ranges ++ memberships)
    (tested : table.test key mapped column operator value = .ok inner) :
    Compares column operator (boundValues operator value) inner := by
  cases operator with
  | equal | notEqual | less | lessEq | greater | greaterEq =>
    cases tested
    rw [boundValues_relation (by decide)]
    exact .relation value (by decide)
  | between | notBetween =>
    change Table.range column _ value = .ok inner at tested
    unfold Table.range at tested
    split at tested
    · next low high =>
      cases tested
      exact .range low high (by decide)
    · cases tested
  | isIn | notIn =>
    have members := (membership_eq (by decide) column value).symm.trans tested
    unfold Table.members at members
    split at members
    · cases members
    · cases members
      exact .membership _ (by decide)
  | _ => exact absurd comparing (by decide)

/-- A list of texts is compared with a column of another type as it is. Where the items are bound
one by one, numbers or flags are then compared with texts. Where the list is bound as one value, a
column of texts is compared with something that is no text. -/
def Mismatched (type : DataType) (operator : Operator) : Value → Prop
  | .list items => (∀ item ∈ items, item.isText = true) ∧ (operator ∈ relations ↔ type = .string)
  | _ => False

theorem not_texts_of_numbers (nonempty : items ≠ [])
    (numbers : ∀ item ∈ items, item.isNumber = true) : ¬∀ item ∈ items, item.isText = true := by
  intro texts
  obtain ⟨item, mem⟩ := List.exists_mem_of_ne_nil items nonempty
  have number := numbers item mem
  have text := texts item mem
  cases item with
  | number value => cases text
  | _ => cases number

/-- The items of a list of texts are bound as texts, but the list is not one. -/
theorem boundValues_texts (texts : ∀ item ∈ items, item.isText = true) (operator : Operator) :
    (∀ value ∈ boundValues operator (.list items), value.isText = true) ↔
      operator ∉ relations := by
  rw [boundValues]
  split
  · next mem => simp [mem, Value.isText, Value.text?]
  · next several => exact iff_of_true texts several

theorem boundValues_numbers (nonempty : items ≠ [])
    (numbers : ∀ item ∈ items, item.isNumber = true) (operator : Operator) :
    ¬∀ value ∈ boundValues operator (.list items), value.isText = true := by
  rw [boundValues]
  split
  · simp [Value.isText, Value.text?]
  · exact not_texts_of_numbers nonempty numbers

/-- Whether a column is compared as text exactly where the values bound for a value are texts. -/
def Agrees (type : DataType) (operator : Operator) (cast : Cast) (value : Value) : Prop :=
  cast.Textual type ↔ ∀ bound ∈ boundValues operator value, bound.isText = true

theorem agrees_text {cast : Cast} (textual : cast.Textual type) (operator : Operator)
    (text : String) : Agrees type operator cast (.text text) :=
  iff_of_true textual (List.forall_mem_singleton.2 rfl)

theorem agrees_other {operator : Operator} {cast : Cast} (plain : ¬cast.Textual type)
    (single : boundValues operator value = [value]) (other : value.isText = false) :
    Agrees type operator cast value := by
  refine iff_of_false plain ?_
  rw [single, List.forall_mem_singleton, other]
  exact Bool.false_ne_true

/-- A value that is no list is aligned with the column by a cast of the column, or becomes a text or
a number itself. -/
theorem alignTypes_single (typed : type ≠ .unspecified) (uniform : value.Uniform)
    (single : ∀ items, value ≠ .list items) (column : String) (operator : Operator) :
    ∃ cast : Cast, (alignTypes type column operator value).1 = cast.apply column ∧
      Agrees type operator cast (alignTypes type column operator value).2 := by
  have uncast : column = Cast.apply .none column := (Cast.apply_none column).symm
  cases value with
  | null => exact absurd uniform id
  | list items => exact absurd rfl (single items)
  | text text =>
    cases type with
    | unspecified => exact absurd rfl typed
    | string => exact ⟨.none, uncast, agrees_text Cast.textual_none operator text⟩
    | bool => exact ⟨.text, rfl, agrees_text (Cast.textual_text _) operator text⟩
    | number =>
      unfold alignTypes
      dsimp only
      cases Number.ofText? (Text.trim text) with
      | none => exact ⟨.text, rfl, agrees_text (Cast.textual_text _) operator text⟩
      | some number =>
        dsimp only
        split
        · exact ⟨.none, uncast, agrees_other (Cast.not_textual_none (by decide)) rfl rfl⟩
        · exact ⟨.text, rfl, agrees_text (Cast.textual_text _) operator text⟩
  | number number =>
    cases type with
    | unspecified => exact absurd rfl typed
    | string => exact ⟨.number, rfl, agrees_other (Cast.not_textual_number _) rfl rfl⟩
    | bool | number =>
      exact ⟨.none, uncast, agrees_other (Cast.not_textual_none (by decide)) rfl rfl⟩
  | bool flag =>
    cases type with
    | unspecified => exact absurd rfl typed
    | string => exact ⟨.none, uncast, agrees_text Cast.textual_none operator _⟩
    | bool | number =>
      exact ⟨.none, uncast, agrees_other (Cast.not_textual_none (by decide)) rfl rfl⟩

/-- A list of texts and the column that it is compared with are left as they are. -/
theorem alignTypes_texts (nonempty : items ≠ []) (texts : ∀ item ∈ items, item.isText = true)
    (type : DataType) (column : String) (operator : Operator) :
    alignTypes type column operator (.list items) = (column, .list items) := by
  cases type with
  | string =>
    refine if_neg fun numbers => ?_
    have all := List.all_eq_true.1 (Bool.and_eq_true_iff.1 numbers).2
    exact not_texts_of_numbers nonempty all texts
  | _ => rfl

/-- With a list of numbers a column of texts is cast to numbers. -/
theorem alignTypes_numbers (nonempty : items ≠ [])
    (numbers : ∀ item ∈ items, item.isNumber = true) (type : DataType) (column : String)
    (operator : Operator) :
    alignTypes type column operator (.list items) =
      (Cast.apply (if type = .string then .number else .none) column, .list items) := by
  cases type with
  | string =>
    refine if_pos ?_
    rw [List.all_eq_true.2 numbers]
    simpa using nonempty
  | _ => exact congrArg (Prod.mk · _) (Cast.apply_none column).symm

theorem alignTypes_agree (typed : type ≠ .unspecified) (uniform : value.Uniform) (column : String)
    (operator : Operator) :
    ∃ cast : Cast, (alignTypes type column operator value).1 = cast.apply column ∧
      (Agrees type operator cast (alignTypes type column operator value).2 ↔
        ¬Mismatched type operator value) := by
  by_cases listed : ∃ items, value = .list items
  · obtain ⟨items, rfl⟩ := listed
    obtain ⟨nonempty, texts | numbers⟩ := uniform
    · rw [alignTypes_texts nonempty texts]
      refine ⟨.none, (Cast.apply_none column).symm, ?_⟩
      rw [Agrees, boundValues_texts texts, Mismatched, and_iff_right texts, Classical.not_iff]
      exact Iff.comm
    · rw [alignTypes_numbers nonempty numbers]
      have noTexts := boundValues_numbers nonempty numbers operator
      refine ⟨_, rfl, iff_of_true (iff_of_false ?_ noTexts) ?_⟩
      · split
        · exact Cast.not_textual_number type
        · next other => exact Cast.not_textual_none other
      · rintro ⟨texts, -⟩
        exact not_texts_of_numbers nonempty numbers texts
  · have single : ∀ items, value ≠ .list items := fun items same => listed ⟨items, same⟩
    obtain ⟨cast, shown, agrees⟩ := alignTypes_single typed uniform single column operator
    refine ⟨cast, shown, iff_of_true agrees ?_⟩
    cases value with
    | list items => exact absurd rfl (single items)
    | _ => exact id

theorem guard_injective {operator : Operator} {a b : Fragment}
    (same : table.guard key operator a = table.guard key operator b) : a = b := by
  unfold Table.guard at same
  split at same
  · split at same
    · exact List.append_cancel_right (List.cons.inj same).2
    · exact same
  · exact same

/-- A condition compares the column of a field, after a cast, with some values. -/
def Table.Renders (table : Table) (key : Key) (operator : Operator) (fragment : Fragment)
    (cast : Cast) (values : List Value) : Prop :=
  ∃ column inner, table.field key = .ok column ∧
    Compares (cast.apply column) operator values inner ∧
    fragment = table.guard key operator inner

theorem Table.Renders.unique {operator : Operator} {fragment : Fragment} {a b : Cast}
    {values others : List Value} (renders : table.Renders key operator fragment a values)
    (also : table.Renders key operator fragment b others) : a = b ∧ values = others := by
  obtain ⟨column, inner, mapped, compares, rfl⟩ := renders
  obtain ⟨column', inner', mapped', compares', same⟩ := also
  obtain rfl := guard_injective same
  obtain rfl := Except.ok.inj (mapped.symm.trans mapped')
  exact ⟨Cast.apply_injective (compares.column_eq compares'),
    compares.arguments.symm.trans compares'.arguments⟩

/-- A comparison of a typed field with values of one type shows one cast of its column and binds
some values. The column is compared as text exactly where all values are texts, unless a list of
texts is compared with numbers or flags, or as one value with texts. -/
theorem condition_types_agree_iff {table : Table} {key : Key} {operator : Operator} {value : Value}
    {fragment : Fragment} (typed : key.type ≠ .unspecified)
    (comparing : operator ∈ relations ++ ranges ++ memberships) (uniform : value.Uniform)
    (ok : table.condition key operator value = .ok fragment) :
    ∃ cast values, table.Renders key operator fragment cast values ∧
      (∀ other others, table.Renders key operator fragment other others →
        other = cast ∧ others = values) ∧
      ((cast.Textual key.type ↔ ∀ bound ∈ values, bound.isText = true) ↔
        ¬Mismatched key.type operator value) := by
  obtain ⟨column, inner, mapped, tested, rfl⟩ := Table.condition_ok ok
  obtain ⟨cast, shown, agrees⟩ := alignTypes_agree typed uniform column operator
  rw [shown] at tested
  have renders : table.Renders key operator (table.guard key operator inner) cast _ :=
    ⟨column, inner, mapped, test_compares comparing tested, rfl⟩
  exact ⟨cast, _, renders, fun other others also => also.unique renders, agrees⟩

/-- Texts are cast to numbers for a range of numbers, and this is the one cast that the condition
shows. -/
theorem condition_types_agree_iff_numbers :
    let key : Key := { name := "size", context := .attributes, type := .string }
    let values : List Value := [.number .zero, .number .one]
    ∃ fragment, key.type ≠ .unspecified ∧ Operator.between ∈ relations ++ ranges ++ memberships ∧
      (Value.list values).Uniform ∧
      Table.logs.condition key .between (.list values) = .ok fragment ∧
      Table.logs.Renders key .between fragment .number values ∧
      ((Cast.number.Textual key.type ↔ ∀ bound ∈ values, bound.isText = true) ↔
        ¬Mismatched key.type .between (.list values)) := by
  intro key values
  have uniform : (Value.list values).Uniform :=
    ⟨by simp [values], .inr (by simp [values, Value.isNumber, Value.number?])⟩
  have ok : Table.logs.condition key .between (.list values) = .ok _ := rfl
  have renders : Table.logs.Renders key .between _ .number values :=
    ⟨_, _, rfl, .range _ _ (by decide), rfl⟩
  obtain ⟨cast, bound, -, unique, agrees⟩ :=
    condition_types_agree_iff (by decide) (by decide) uniform ok
  obtain ⟨rfl, rfl⟩ := unique .number values renders
  exact ⟨_, by decide, by decide, uniform, ok, renders, agrees⟩

/-- A column of numbers is left as it is although all values that it is compared with are texts. -/
theorem condition_types_disagree :
    let key : Key := { name := "http.status_code", context := .attributes, type := .number }
    let values : List Value := [.text "200", .text "404"]
    ∃ fragment, Table.logs.condition key .isIn (.list values) = .ok fragment ∧
      fragment.sql = "(attributes_number['http.status_code'] IN (?, ?)" ++
        " AND mapContains(attributes_number, 'http.status_code') = ?)" ∧
      Table.logs.Renders key .isIn fragment .none values ∧
      ¬Cast.none.Textual key.type ∧ ∀ bound ∈ values, bound.isText = true := by
  refine ⟨_, rfl, by decide +kernel, ⟨_, _, rfl, .membership _ (by decide), rfl⟩,
    Cast.not_textual_none (by decide), ?_⟩
  simp [Value.isText, Value.text?]

end Schema

end TelemetryQuery
