import TelemetryQuery.Field.Resolution
import Mathlib.Data.List.Basic
/- What resolving a key a second time does to it. -/
namespace TelemetryQuery.Field

/-- Fields that are listed under their own names. -/
def Catalog.Grouped (catalog : Catalog) : Prop :=
  ∀ entry ∈ catalog, ∀ field ∈ entry.2, field.name = entry.1

instance (catalog : Catalog) : Decidable catalog.Grouped :=
  inferInstanceAs (Decidable (∀ entry ∈ catalog, _))

theorem Catalog.Grouped.name_eq {catalog : Catalog} (grouped : catalog.Grouped) {name : String}
    {field : Key} (mem : field ∈ catalog.find name) : field.name = name := by
  rw [find] at mem
  cases found : catalog.lookup name with
  | none => simp [found] at mem
  | some keys =>
    rw [found, Option.getD_some] at mem
    obtain ⟨before, after, rfl, -⟩ := List.lookup_eq_some_iff.1 found
    exact grouped (name, keys) (by simp) field mem

namespace Key

variable {catalog : Catalog} {key : Key}

/-- The known fields that have the name of a key with its context before it, and its type. -/
def qualified (catalog : Catalog) (key : Key) : List Key :=
  if key.context.isSpecified then (catalog.find key.qualifiedName).filter key.acceptsType else []

theorem matching_eq (catalog : Catalog) (key : Key) :
    key.matching catalog =
      (catalog.find key.name).filter key.accepts ++ key.qualified catalog :=
  rfl

theorem acceptsType_iff {field : Key} :
    key.acceptsType field = true ↔ (key.type.isSpecified = true → key.type = field.type) := by
  rw [acceptsType, Bool.or_eq_true, Bool.not_eq_true', beq_iff_eq]
  cases key.type.isSpecified <;> simp

theorem accepts_iff {field : Key} :
    key.accepts field = true ↔ (key.context.isSpecified = true → key.context = field.context) ∧
      (key.type.isSpecified = true → key.type = field.type) := by
  rw [accepts, Bool.and_eq_true, Bool.or_eq_true, Bool.not_eq_true', beq_iff_eq, acceptsType_iff]
  cases key.context.isSpecified <;> simp

/-- A key that asks for all that another one asks for. -/
structure Narrows (narrow key : Key) : Prop where
  context : key.context.isSpecified = true → narrow.context = key.context
  type : key.type.isSpecified = true → narrow.type = key.type

theorem Narrows.acceptsType {narrow field : Key} (narrows : narrow.Narrows key)
    (accepts : narrow.acceptsType field = true) : key.acceptsType field = true := by
  rw [acceptsType_iff] at accepts ⊢
  intro specified
  have same := narrows.type specified
  rw [← same] at specified ⊢
  exact accepts specified

theorem Narrows.accepts {narrow field : Key} (narrows : narrow.Narrows key)
    (accepts : narrow.accepts field = true) : key.accepts field = true := by
  rw [accepts_iff] at accepts ⊢
  constructor
  · intro specified
    have same := narrows.context specified
    rw [← same] at specified ⊢
    exact accepts.1 specified
  · intro specified
    have same := narrows.type specified
    rw [← same] at specified ⊢
    exact accepts.2 specified

theorem narrows_of_accepts {field : Key} (accepts : key.accepts field = true) :
    field.Narrows key := by
  rw [accepts_iff] at accepts
  exact ⟨fun specified => (accepts.1 specified).symm, fun specified => (accepts.2 specified).symm⟩

theorem accepts_self (key : Key) : key.accepts key = true :=
  accepts_iff.2 ⟨fun _ => rfl, fun _ => rfl⟩

section Common

variable {α : Type} [BEq α] (isOpen : α → Bool)

/-- What a key has after it was filled from some fields: what they agree on, if it was open. -/
def common (own first : α) (rest : List α) : α :=
  if isOpen own && rest.all (· == first) then first else own

/-- Filling again, from more fields, changes nothing. -/
theorem common_again (own first : α) (rest more : List α) :
    common isOpen (common isOpen own first rest) first (rest ++ more) =
      common isOpen own first rest := by
  by_cases agree : rest.all (· == first) = true
  · cases opened : isOpen own with
    | true =>
      have once : common isOpen own first rest = first := by simp [common, opened, agree]
      rw [once, common, ite_self]
    | false => simp [common, opened]
  · simp [common, agree]

theorem common_of_closed {own first : α} {rest : List α} (closed : isOpen own = false) :
    common isOpen own first rest = own := by
  simp [common, closed]

/-- What was open and is no longer so is the same in all the fields. -/
theorem common_eq_of_mem [LawfulBEq α] {own first field : α} {rest : List α}
    (mem : field ∈ first :: rest) (closed : isOpen own = false → own = field)
    (filled : isOpen (common isOpen own first rest) = false) :
    common isOpen own first rest = field := by
  by_cases agree : (isOpen own && rest.all (· == first)) = true
  · rw [common, if_pos agree]
    rw [Bool.and_eq_true, List.all_eq_true] at agree
    rcases List.mem_cons.1 mem with rfl | later
    · rfl
    · exact (beq_iff_eq.1 (agree.2 field later)).symm
  · rw [common, if_neg agree] at filled ⊢
    exact closed filled

end Common

section Fill

variable (key first : Key) (rest more : List Key)

theorem fill_result :
    (key.fill first rest).result =
      { key with
        context := common (!·.isSpecified) key.context first.context (rest.map (·.context))
        type := common (!·.isSpecified) key.type first.type (rest.map (·.type))
        bodyType := common Option.isNone key.bodyType first.bodyType (rest.map (·.bodyType))
        materialized := (first :: rest).all (·.materialized) } := by
  simp only [fill, common, List.all_map, Function.comp_def]
  split <;> split <;> rfl

@[simp]
theorem fill_name : (key.fill first rest).result.name = key.name := by
  rw [fill_result]

@[simp]
theorem fill_materialized :
    (key.fill first rest).result.materialized = (first :: rest).all (·.materialized) := by
  rw [fill_result]

theorem fill_again :
    ((key.fill first rest).result.fill first (rest ++ more)).result =
      { (key.fill first rest).result with
        materialized :=
          (key.fill first rest).result.materialized && more.all (·.materialized) } := by
  simp only [fill_result, List.map_append, common_again, List.all_cons, List.all_append,
    Bool.and_assoc]

theorem fill_self :
    (key.fill key rest).result =
      { key with materialized := key.materialized && rest.all (·.materialized) } := by
  simp [fill_result, common]

theorem fill_narrows : (key.fill first rest).result.Narrows key := by
  rw [fill_result]
  constructor
  · intro specified
    exact common_of_closed (!Context.isSpecified ·) (by simp [specified])
  · intro specified
    exact common_of_closed (!DataType.isSpecified ·) (by simp [specified])

variable {key first rest}

theorem fill_acceptsType {field : Key} (mem : field ∈ first :: rest)
    (accepts : key.acceptsType field = true) :
    (key.fill first rest).result.acceptsType field = true := by
  rw [acceptsType_iff] at accepts ⊢
  intro specified
  rw [fill_result] at specified ⊢
  have types : field.type ∈ first.type :: rest.map (·.type) :=
    List.mem_map_of_mem (f := fun key : Key => key.type) mem
  refine common_eq_of_mem (!DataType.isSpecified ·) types
    (fun closed => accepts (by simpa using closed)) ?_
  simpa using specified

theorem fill_accepts {field : Key} (mem : field ∈ first :: rest)
    (accepts : key.accepts field = true) :
    (key.fill first rest).result.accepts field = true := by
  have type := fill_acceptsType mem (acceptsType_iff.2 (accepts_iff.1 accepts).2)
  refine accepts_iff.2 ⟨?_, acceptsType_iff.1 type⟩
  intro specified
  rw [fill_result] at specified ⊢
  have contexts : field.context ∈ first.context :: rest.map (·.context) :=
    List.mem_map_of_mem (f := fun key : Key => key.context) mem
  refine common_eq_of_mem (!Context.isSpecified ·) contexts
    (fun closed => (accepts_iff.1 accepts).1 (by simpa using closed)) ?_
  simpa using specified

end Fill

/-- The only field that a key may mean stays the only one of its name when it is the key. -/
theorem filter_accepts_eq_singleton {fields : List Key} {known : Key → Bool} {only : Key}
    (lone : fields.filter known = [only])
    (narrower : ∀ field, only.accepts field = true → known field = true) :
    fields.filter only.accepts = [only] := by
  have same : fields.filter only.accepts = (fields.filter known).filter only.accepts := by
    rw [List.filter_filter]
    apply List.filter_congr
    intro field _
    cases accepted : only.accepts field with
    | true => simp [narrower field accepted]
    | false => simp
  rw [same, lone, List.filter_singleton, accepts_self]
  rfl

theorem qualifiedName_ne (key : Key) : key.qualifiedName ≠ key.name := by
  intro same
  have lengths := congrArg (fun text => text.toList.length) same
  simp only [qualifiedName, String.toList_append, List.length_append] at lengths
  have point : ".".toList.length = 1 := rfl
  omega

/-- A key after its second resolution, if the first one gave the key. -/
def demoted (catalog : Catalog) (key : Key) : Key :=
  { key with materialized := key.materialized && (key.qualified catalog).all (·.materialized) }

theorem settle_self (key : Key) (rest : List Key) :
    (key.settle (key :: rest)).result =
      { key with materialized := key.materialized && rest.all (·.materialized) } := by
  cases rest with
  | nil => simp [settle]
  | cons next rest => exact fill_self key (next :: rest)

section Settle

variable {only first second : Key} {rest : List Key}

theorem settle_again_of_none (none : key.matching catalog = []) :
    let once := (key.settle (key.matching catalog)).result
    (once.settle (once.matching catalog)).result = once.demoted catalog := by
  have again : ({ key with materialized := false } : Key).matching catalog = [] := none
  simp only [none, settle, again, demoted, Bool.false_and]

theorem settle_again_of_only (grouped : catalog.Grouped) (lone : key.matching catalog = [only]) :
    let once := (key.settle (key.matching catalog)).result
    (once.settle (once.matching catalog)).result = once.demoted catalog := by
  -- Found under the qualified name, the field takes the key's place with that name as its own.
  have named : (catalog.find only.name).filter only.accepts = [only] := by
    rw [matching_eq] at lone
    rcases List.append_eq_singleton_iff.1 lone with ⟨-, qualified⟩ | ⟨named, -⟩
    · rw [Key.qualified] at qualified
      split at qualified
      · have mem := List.mem_filter.1 (qualified ▸ List.mem_singleton_self only)
        rw [grouped.name_eq mem.1]
        refine filter_accepts_eq_singleton qualified fun field accepted => ?_
        rw [acceptsType_iff]
        intro specified
        have type := acceptsType_iff.1 mem.2 specified
        rw [type] at specified ⊢
        exact (accepts_iff.1 accepted).2 specified
      · cases qualified
    · have mem := List.mem_filter.1 (named ▸ List.mem_singleton_self only)
      rw [grouped.name_eq mem.1]
      exact filter_accepts_eq_singleton named fun field => (narrows_of_accepts mem.2).accepts
  have again : only.matching catalog = only :: only.qualified catalog := by
    rw [matching_eq, named]
    rfl
  simp only [lone, settle, again]
  exact settle_self only (only.qualified catalog)

/-- Once a key is filled from several fields, these are found again. Only a context that it has
gained leads to further ones. -/
theorem matching_fill (several : key.matching catalog = first :: rest) :
    let once := (key.fill first rest).result
    ∃ more, once.matching catalog = first :: (rest ++ more) ∧
      (once.materialized && more.all (·.materialized)) =
        (once.materialized && (once.qualified catalog).all (·.materialized)) := by
  intro once
  have narrows : once.Narrows key := fill_narrows key first rest
  have name : once.name = key.name := fill_name key first rest
  have named : (catalog.find once.name).filter once.accepts =
      (catalog.find key.name).filter key.accepts := by
    rw [name]
    apply List.filter_congr
    intro field mem
    rw [Bool.eq_iff_iff]
    refine ⟨narrows.accepts, fun accepted => fill_accepts ?_ accepted⟩
    rw [← several, matching_eq]
    exact List.mem_append_left _ (List.mem_filter.2 ⟨mem, accepted⟩)
  -- A context that was given stays, and so does the qualified name. One that was open is asked for
  -- under a qualified name for the first time.
  cases specified : key.context.isSpecified with
  | true =>
    have qualified : once.qualified catalog = key.qualified catalog := by
      have context := narrows.context specified
      have qualifiedName : once.qualifiedName = key.qualifiedName := by
        rw [Key.qualifiedName, Key.qualifiedName, context, name]
      rw [Key.qualified, Key.qualified, context, if_pos specified, if_pos specified, qualifiedName]
      apply List.filter_congr
      intro field mem
      rw [Bool.eq_iff_iff]
      refine ⟨narrows.acceptsType, fun accepted => fill_acceptsType ?_ accepted⟩
      rw [← several, matching_eq, Key.qualified, if_pos specified]
      exact List.mem_append_right _ (List.mem_filter.2 ⟨mem, accepted⟩)
    refine ⟨[], ?_, ?_⟩
    · rw [matching_eq, named, qualified, ← matching_eq, several, List.append_nil]
    · cases materialized : once.materialized with
      | false => rfl
      | true =>
        have all := (fill_materialized key first rest).symm.trans materialized
        rw [← several, matching_eq, List.all_append, Bool.and_eq_true] at all
        rw [qualified, all.2]
        rfl
  | false =>
    refine ⟨once.qualified catalog, ?_, rfl⟩
    have none : key.qualified catalog = [] := by
      rw [Key.qualified, specified]
      rfl
    rw [matching_eq, none, List.append_nil] at several
    rw [matching_eq, named, several, List.cons_append]

theorem settle_again_of_several (several : key.matching catalog = first :: second :: rest) :
    let once := (key.settle (key.matching catalog)).result
    (once.settle (once.matching catalog)).result = once.demoted catalog := by
  obtain ⟨more, again, materialized⟩ := matching_fill several
  simp only [several, settle, again, List.cons_append] at materialized ⊢
  rw [demoted, ← materialized]
  exact fill_again key first (second :: rest) more

theorem settle_again (grouped : catalog.Grouped) (key : Key) :
    let once := (key.settle (key.matching catalog)).result
    (once.settle (once.matching catalog)).result = once.demoted catalog := by
  match found : key.matching catalog with
  | [] => exact found ▸ settle_again_of_none found
  | [only] => exact found ▸ settle_again_of_only grouped found
  | first :: second :: rest => exact found ▸ settle_again_of_several found

/-- A key that keeps its name asks for what it asked for before. -/
theorem settle_narrows (grouped : catalog.Grouped)
    (same : (key.settle (key.matching catalog)).result.name = key.name) :
    (key.settle (key.matching catalog)).result.Narrows key := by
  match found : key.matching catalog with
  | [] => exact ⟨fun _ => rfl, fun _ => rfl⟩
  | [only] =>
    rw [found] at same
    have mem : only ∈ key.matching catalog := by simp [found]
    rw [matching_eq] at mem
    rcases List.mem_append.1 mem with named | qualified
    · exact narrows_of_accepts (List.mem_filter.1 named).2
    · rw [Key.qualified] at qualified
      split at qualified
      · have name := grouped.name_eq (List.mem_filter.1 qualified).1
        exact absurd (name.symm.trans same) key.qualifiedName_ne
      · cases qualified
  | first :: second :: rest => exact fill_narrows key first (second :: rest)

/-- A key that does not mean a field of all records does not mean it when it is resolved. -/
theorem settle_not_meansIntrinsic (grouped : catalog.Grouped) {field : Key}
    (other : key.meansIntrinsic catalog field = false)
    (same : (key.settle (key.matching catalog)).result.name = key.name) :
    (key.settle (key.matching catalog)).result.meansIntrinsic catalog field = false := by
  rw [Bool.eq_false_iff] at other ⊢
  intro means
  apply other
  rw [meansIntrinsic, Bool.and_eq_true] at means ⊢
  rw [same] at means
  exact ⟨means.1, (settle_narrows grouped same).accepts means.2⟩

end Settle

theorem demoted_cases (catalog : Catalog) (key : Key) :
    key.demoted catalog = key ∨ key.demoted catalog = { key with materialized := false } := by
  rw [demoted]
  cases (key.qualified catalog).all (·.materialized) with
  | true => exact .inl (by rw [Bool.and_true])
  | false => exact .inr (by rw [Bool.and_false])

theorem demoted_eq_iff :
    key.demoted catalog = key ↔
      key.materialized = false ∨ ∀ field ∈ key.qualified catalog, field.materialized = true := by
  rw [← List.all_eq_true]
  constructor
  · intro same
    have flag : (key.materialized && _) = key.materialized := congrArg Key.materialized same
    cases materialized : key.materialized with
    | false => exact .inl rfl
    | true =>
      rw [materialized, Bool.true_and] at flag
      exact .inr flag
  · rintro (plain | all)
    · rw [demoted, plain, Bool.false_and, ← plain]
    · rw [demoted, all, Bool.and_true]

section Resolve

variable {intrinsic : Option Key} {field : Key}

theorem resolve_of_means (means : key.meansIntrinsic catalog field = true) :
    (key.resolve catalog (some field)).result = field := by
  rw [resolve, if_pos means]

theorem resolve_of_not_means
    (other : ∀ field ∈ intrinsic, key.meansIntrinsic catalog field = false) :
    (key.resolve catalog intrinsic).result = (key.settle (key.matching catalog)).result := by
  cases intrinsic with
  | none => rfl
  | some field =>
    rw [resolve, other field rfl]
    rfl

theorem meansIntrinsic_self (means : key.meansIntrinsic catalog field = true)
    (name : field.name = key.name) : field.meansIntrinsic catalog field = true := by
  rw [meansIntrinsic, Bool.and_eq_true] at means ⊢
  rw [name]
  exact ⟨means.1, accepts_self field⟩

end Resolve

/-- A key that was resolved stays as it is when it is resolved again, but for one case: it is
materialized, was not taken from the fields of all records, and a field of its type is known that
has its context before its name and is not materialized. Then it is no longer materialized. -/
theorem resolve_twice_iff {intrinsic : Option Key} (grouped : catalog.Grouped)
    (named : ∀ field ∈ intrinsic, field.name = key.name) :
    let once := (key.resolve catalog intrinsic).result
    let again := (once.resolve catalog (if once.name = key.name then intrinsic else none)).result
    (again = once ∨ again = { once with materialized := false }) ∧
    (again = once ↔ (∃ field ∈ intrinsic, key.meansIntrinsic catalog field = true) ∨
      once.materialized = false ∨
      ∀ field ∈ once.qualified catalog, field.materialized = true) := by
  intro once again
  by_cases adopted : ∃ field ∈ intrinsic, key.meansIntrinsic catalog field = true
  · obtain ⟨field, rfl, means⟩ := adopted
    have name := named field rfl
    have first : once = field := resolve_of_means means
    have same : again = once := by
      simp only [again, first, if_pos name]
      exact resolve_of_means (meansIntrinsic_self means name)
    exact ⟨.inl same, iff_of_true same (.inl ⟨field, rfl, means⟩)⟩
  · have other : ∀ field ∈ intrinsic, key.meansIntrinsic catalog field = false := by
      intro field mem
      exact Bool.eq_false_iff.2 fun means => adopted ⟨field, mem, means⟩
    have first : once = (key.settle (key.matching catalog)).result := resolve_of_not_means other
    -- Under the same name the key asks for more than before, so it cannot mean the field only now.
    have otherAgain : ∀ field ∈ if once.name = key.name then intrinsic else none,
        once.meansIntrinsic catalog field = false := by
      intro field mem
      split at mem
      · next name =>
        rw [first] at name ⊢
        exact settle_not_meansIntrinsic grouped (other field mem) name
      · cases mem
    have settled := settle_again grouped key
    rw [← first] at settled
    have second : again = once.demoted catalog := (resolve_of_not_means otherAgain).trans settled
    rw [second]
    exact ⟨once.demoted_cases catalog, demoted_eq_iff.trans (or_iff_right adopted).symm⟩

/-- The key gains the context that its fields have in common, and with it finds a further one. -/
theorem resolve_twice_iff_gained :
    let catalog := Catalog.ofKeys
      [{ name := "d", context := .span, type := .number, materialized := true },
        { name := "d", context := .span, type := .string, materialized := true },
        { name := "span.d", context := .attributes, type := .string, materialized := true }]
    let key : Key := { name := "d" }
    let intrinsic : Option Key := some { name := "d", context := .log, type := .string }
    let once := (key.resolve catalog intrinsic).result
    let again := (once.resolve catalog (if once.name = key.name then intrinsic else none)).result
    catalog.Grouped ∧ (∀ field ∈ intrinsic, field.name = key.name) ∧
      once = { name := "d", context := .span, materialized := true } ∧
      (once.qualified catalog).length = 1 ∧ again = once := by
  intro catalog key intrinsic once again
  have grouped : catalog.Grouped := by decide +kernel
  have named : ∀ field ∈ intrinsic, field.name = key.name := by
    intro field mem
    rw [← Option.some.inj mem]
  have first : once = { name := "d", context := .span, materialized := true } := by decide +kernel
  have qualified : once.qualified catalog =
      [{ name := "span.d", context := .attributes, type := .string, materialized := true }] := by
    decide +kernel
  have all : ∀ field ∈ once.qualified catalog, field.materialized = true := by
    rw [qualified]
    simp
  have length : (once.qualified catalog).length = 1 := by
    rw [qualified]
    rfl
  exact ⟨grouped, named, first, length, (resolve_twice_iff grouped named).2.2 (.inr (.inr all))⟩

/-- The context that a key gains from its only field leads to a field that is not materialized. -/
theorem resolve_twice_demotes :
    ¬∀ (catalog : Catalog) (key : Key) (intrinsic : Option Key), catalog.Grouped →
      (∀ field ∈ intrinsic, field.name = key.name) →
      let once := (key.resolve catalog intrinsic).result
      (once.resolve catalog (if once.name = key.name then intrinsic else none)).result = once := by
  intro stays
  let catalog := Catalog.ofKeys
    [{ name := "x", context := .attributes, type := .string, materialized := true },
      { name := "attribute.x", context := .attributes, type := .string }]
  have grouped : catalog.Grouped := by decide +kernel
  have same := stays catalog { name := "x" } none grouped (fun _ mem => by cases mem)
  revert same
  decide +kernel

end Key

end TelemetryQuery.Field
