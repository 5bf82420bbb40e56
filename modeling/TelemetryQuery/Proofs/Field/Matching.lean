import TelemetryQuery.Proofs.Field.Resolution
/- What a key keeps when it is resolved, and what it gains from the fields that it may mean. -/
namespace TelemetryQuery.Field

namespace Catalog

variable {catalog : Catalog}

theorem find_cons (name wanted : String) (fields : List Key) (rest : Catalog) :
    find ((name, fields) :: rest) wanted = if wanted = name then fields else find rest wanted := by
  rw [find, find, List.lookup_cons]
  by_cases same : wanted = name
  · simp [same]
  · have other : (wanted == name) = false := by simpa using same
    simp [same, other]

theorem find_eq_nil {name : String} (unknown : name ∉ catalog.names) : catalog.find name = [] := by
  induction catalog with
  | nil => rfl
  | cons entry rest ih =>
    obtain ⟨other, fields⟩ := entry
    rw [names, List.map_cons, List.mem_cons, not_or] at unknown
    rw [find_cons, if_neg unknown.1]
    exact ih unknown.2

/-- In a table grouped by name, a name leads to all fields of that name. -/
theorem find_eq_filter (grouped : catalog.Grouped) (unique : catalog.names.Nodup) (name : String) :
    catalog.find name = catalog.keys.filter (·.name == name) := by
  induction catalog with
  | nil => rfl
  | cons entry rest ih =>
    obtain ⟨own, fields⟩ := entry
    obtain ⟨groupedFirst, groupedRest⟩ := List.forall_mem_cons.1 grouped
    obtain ⟨new, uniqueRest⟩ := List.nodup_cons.1 unique
    have keys_cons : keys ((own, fields) :: rest) = fields ++ keys rest := by simp [keys]
    rw [find_cons, keys_cons, List.filter_append, ← ih groupedRest uniqueRest]
    split
    · next same =>
      rw [same, find_eq_nil new, List.append_nil, List.filter_eq_self.2]
      intro field mem
      simpa using groupedFirst field mem
    · next other =>
      rw [List.filter_eq_nil_iff.2, List.nil_append]
      intro field mem
      simpa [groupedFirst field mem] using Ne.symm other

end Catalog

namespace Key

/-- A known field that a key may mean: it has the name of the key and what the key asks for, or the
name with the context before it and the type. -/
def Matches (key field : Key) : Prop :=
  field.name = key.name ∧ (key.context.isSpecified = true → field.context = key.context) ∧
      (key.type.isSpecified = true → field.type = key.type) ∨
    key.context.isSpecified = true ∧ field.name = key.qualifiedName ∧
      (key.type.isSpecified = true → field.type = key.type)

instance (key field : Key) : Decidable (key.Matches field) :=
  inferInstanceAs (Decidable (_ ∨ _))

/-- All known fields that a key may mean. -/
def candidates (catalog : Catalog) (key : Key) : List Key :=
  catalog.keys.filter fun field => key.Matches field

variable {catalog : Catalog} {key : Key}

theorem filter_append_filter_perm {α : Type} {p q : α → Bool}
    (apart : ∀ a, p a = true → q a = false) (items : List α) :
    (items.filter p ++ items.filter q).Perm (items.filter fun a => p a || q a) := by
  have perm := List.filter_append_perm p (items.filter fun a => p a || q a)
  rw [List.filter_filter, List.filter_filter] at perm
  have first : (fun a => p a && (p a || q a)) = p := by
    funext a
    cases p a <;> rfl
  have second : (fun a => !p a && (p a || q a)) = q := by
    funext a
    cases found : p a with
    | false => rfl
    | true => simp [apart a found]
  rwa [first, second] at perm

/-- The fields that are looked up for a key are all known ones that it may mean. -/
theorem matching_perm (grouped : catalog.Grouped) (unique : catalog.names.Nodup) (key : Key) :
    (key.matching catalog).Perm (key.candidates catalog) := by
  let named (field : Key) := key.accepts field && field.name == key.name
  let qualified (field : Key) :=
    key.context.isSpecified && (key.acceptsType field && field.name == key.qualifiedName)
  -- No field is found twice, since the name with a context before it is another name.
  have apart (field : Key) (own : named field = true) : qualified field = false := by
    have name : field.name = key.name := by simpa using (Bool.and_eq_true_iff.1 own).2
    simp [qualified, name, key.qualifiedName_ne.symm]
  have fields : key.matching catalog =
      catalog.keys.filter named ++ catalog.keys.filter qualified := by
    rw [matching, catalog.find_eq_filter grouped unique, catalog.find_eq_filter grouped unique,
      List.filter_filter, List.filter_filter]
    cases specified : key.context.isSpecified <;> simp [qualified, named, specified]
  have both : (fun field => named field || qualified field) =
      fun field => decide (key.Matches field) := by
    funext field
    rw [Bool.eq_iff_iff, decide_eq_true_iff]
    simp only [named, qualified, Matches, Bool.or_eq_true, Bool.and_eq_true, beq_iff_eq,
      accepts_iff, acceptsType_iff]
    constructor
    · rintro (⟨⟨context, type⟩, name⟩ | ⟨specified, type, name⟩)
      · exact .inl ⟨name, fun asked => (context asked).symm, fun asked => (type asked).symm⟩
      · exact .inr ⟨specified, name, fun asked => (type asked).symm⟩
    · rintro (⟨name, context, type⟩ | ⟨specified, name, type⟩)
      · exact .inl ⟨⟨fun asked => (context asked).symm, fun asked => (type asked).symm⟩, name⟩
      · exact .inr ⟨specified, fun asked => (type asked).symm, name⟩
  rw [fields, candidates, ← both]
  exact filter_append_filter_perm apart catalog.keys

section Common

variable {α : Type} [BEq α] [LawfulBEq α] {isOpen : α → Bool}

/-- What was open is filled with a value if and only if all fields have that value. -/
theorem common_eq_iff {own first value : α} {rest : List α} (opened : isOpen own = true)
    (closed : isOpen value = false) :
    common isOpen own first rest = value ↔ ∀ other ∈ first :: rest, other = value := by
  rw [List.forall_mem_cons, common, opened, Bool.true_and]
  split
  · next agree =>
    rw [List.all_eq_true] at agree
    refine ⟨fun same => ⟨same, fun other mem => ?_⟩, fun same => same.1⟩
    rw [beq_iff_eq.1 (agree other mem), same]
  · next differ =>
    rw [List.all_eq_true] at differ
    constructor
    · rintro rfl
      rw [opened] at closed
      cases closed
    · rintro ⟨rfl, all⟩
      exact absurd (fun other mem => beq_iff_eq.2 (all other mem)) differ

end Common

section Settle

variable {fields : List Key}

theorem settle_type (accepted : ∀ field ∈ fields, key.acceptsType field = true)
    (specified : key.type.isSpecified = true) : (key.settle fields).result.type = key.type := by
  match fields with
  | [] => rfl
  | [only] => exact (acceptsType_iff.1 (accepted only List.mem_cons_self) specified).symm
  | first :: second :: rest => exact (fill_narrows key first (second :: rest)).type specified

theorem settle_context
    (accepted : ∀ field ∈ fields, field.context = key.context ∨ field.name = key.qualifiedName)
    (specified : key.context.isSpecified = true) :
    (key.settle fields).result.context = key.context ∨
      (key.settle fields).result.name = key.qualifiedName := by
  match fields with
  | [] => exact .inl rfl
  | [only] => exact accepted only List.mem_cons_self
  | first :: second :: rest =>
    exact .inl ((fill_narrows key first (second :: rest)).context specified)

/-- A key is materialized if there are fields that it may mean, and all of them are. -/
theorem settle_materialized :
    (key.settle fields).result.materialized = true ↔
      fields ≠ [] ∧ ∀ field ∈ fields, field.materialized = true := by
  match fields with
  | [] => simp [settle]
  | [only] => simp [settle]
  | first :: second :: rest => simp [settle]

/-- Several fields leave the name as it is, and fill what is open if they agree on it. -/
theorem settle_several (several : 2 ≤ fields.length) :
    (key.settle fields).result.name = key.name ∧
    (key.context.isSpecified = false → ∀ context, context.isSpecified = true →
      ((key.settle fields).result.context = context ↔ ∀ field ∈ fields, field.context = context)) ∧
    (key.type.isSpecified = false → ∀ type, type.isSpecified = true →
      ((key.settle fields).result.type = type ↔ ∀ field ∈ fields, field.type = type)) := by
  match fields with
  | first :: second :: rest =>
    have filled : (key.settle (first :: second :: rest)).result =
        (key.fill first (second :: rest)).result := rfl
    rw [filled, fill_result]
    refine ⟨rfl, fun opened context specified => ?_, fun opened type specified => ?_⟩
    · rw [common_eq_iff (by simp [opened]) (by simp [specified])]
      simp
    · rw [common_eq_iff (by simp [opened]) (by simp [specified])]
      simp

end Settle

theorem Matches.acceptsType {field : Key} (meant : key.Matches field) :
    key.acceptsType field = true := by
  rw [acceptsType_iff]
  rcases meant with ⟨-, -, type⟩ | ⟨-, -, type⟩ <;> exact fun specified => (type specified).symm

theorem Matches.context_or_name {field : Key} (meant : key.Matches field)
    (specified : key.context.isSpecified = true) :
    field.context = key.context ∨ field.name = key.qualifiedName := by
  rcases meant with ⟨-, context, -⟩ | ⟨-, name, -⟩
  · exact .inl (context specified)
  · exact .inr name

/-- A key that is resolved keeps the type that it asks for, and the context unless this is now part
of its name. If it does not become a field of all records, then it is materialized if and only if
there are known fields that it may mean and all of them are materialized. With several of them it
keeps its name, and it gets a context or a type that it left open if and only if all have it. -/
theorem resolve_respects_constraints {intrinsic : Option Key} (grouped : catalog.Grouped)
    (unique : catalog.names.Nodup) :
    let result := (key.resolve catalog intrinsic).result
    let candidates := key.candidates catalog
    (key.type.isSpecified = true → result.type = key.type) ∧
    (key.context.isSpecified = true →
      result.context = key.context ∨ result.name = key.qualifiedName) ∧
    ((∀ field ∈ intrinsic, key.meansIntrinsic catalog field = false) →
      (result.materialized = true ↔
        candidates ≠ [] ∧ ∀ field ∈ candidates, field.materialized = true) ∧
      (2 ≤ candidates.length → result.name = key.name ∧
        (key.context.isSpecified = false → ∀ context, context.isSpecified = true →
          (result.context = context ↔ ∀ field ∈ candidates, field.context = context)) ∧
        (key.type.isSpecified = false → ∀ type, type.isSpecified = true →
          (result.type = type ↔ ∀ field ∈ candidates, field.type = type)))) := by
  intro result candidates
  have perm : (key.matching catalog).Perm candidates := matching_perm grouped unique key
  have meant : ∀ field ∈ key.matching catalog, key.Matches field := by
    intro field mem
    simpa using (List.mem_filter.1 (perm.mem_iff.1 mem)).2
  by_cases adopted : ∃ field ∈ intrinsic, key.meansIntrinsic catalog field = true
  · obtain ⟨field, rfl, means⟩ := adopted
    have same : result = field := resolve_of_means means
    obtain ⟨context, type⟩ := accepts_iff.1 (Bool.and_eq_true_iff.1 means).2
    rw [same]
    refine ⟨fun specified => (type specified).symm, fun specified => .inl (context specified).symm,
      fun other => ?_⟩
    exact absurd means (by simp [other field rfl])
  · have other : ∀ field ∈ intrinsic, key.meansIntrinsic catalog field = false := by
      intro field mem
      exact Bool.eq_false_iff.2 fun means => adopted ⟨field, mem, means⟩
    have settled : result = (key.settle (key.matching catalog)).result := resolve_of_not_means other
    have none : key.matching catalog = [] ↔ candidates = [] := by
      rw [← List.length_eq_zero_iff, perm.length_eq, List.length_eq_zero_iff]
    rw [settled]
    refine ⟨settle_type fun field mem => (meant field mem).acceptsType, fun specified => ?_,
      fun _ => ⟨?_, fun several => ?_⟩⟩
    · exact settle_context (fun field mem => (meant field mem).context_or_name specified) specified
    · rw [settle_materialized, ne_eq, none]
      simp only [perm.mem_iff]
    · rw [← perm.length_eq] at several
      simpa only [perm.mem_iff] using settle_several several

/-- One of two fields is found under the name with the context before it. -/
theorem resolve_respects_constraints_qualified :
    let catalog := Catalog.ofKeys
      [{ name := "d", context := .span, type := .number, materialized := true },
        { name := "d", context := .log, type := .string },
        { name := "span.d", context := .attributes, type := .number, materialized := true }]
    let key : Key := { name := "d", context := .span }
    let intrinsic : Option Key := some { name := "d", context := .log, type := .string }
    let result := (key.resolve catalog intrinsic).result
    catalog.Grouped ∧ catalog.names.Nodup ∧ (key.candidates catalog).length = 2 ∧
      (∀ field ∈ intrinsic, key.meansIntrinsic catalog field = false) ∧
      result.name = "d" ∧ result.materialized = true ∧ result.type = .number := by
  intro catalog key intrinsic result
  have grouped : catalog.Grouped := by decide +kernel
  have unique : catalog.names.Nodup := by decide +kernel
  have two : (key.candidates catalog).length = 2 := by decide +kernel
  have other : ∀ field ∈ intrinsic, key.meansIntrinsic catalog field = false := by
    intro field mem
    rw [← Option.some.inj mem]
    decide +kernel
  have materialized : ∀ field ∈ key.candidates catalog, field.materialized = true := by
    decide +kernel
  have numbers : ∀ field ∈ key.candidates catalog, field.type = .number := by decide +kernel
  have some : key.candidates catalog ≠ [] := by
    intro none
    simp [none] at two
  obtain ⟨-, -, known⟩ := resolve_respects_constraints grouped unique
  obtain ⟨all, several⟩ := known other
  obtain ⟨name, -, type⟩ := several (Nat.le_of_eq two.symm)
  exact ⟨grouped, unique, two, other, name, all.2 ⟨some, materialized⟩,
    (type rfl .number rfl).2 numbers⟩

end Key

end TelemetryQuery.Field
