import TelemetryQuery.Field.Usage
import Mathlib.Data.List.Basic
/- Keys of one name are merged into one, which says what all of them say. -/
namespace TelemetryQuery.Field

/-- Names without their repetitions, in the order in which they first occur. -/
structure KeepsFirst (names kept : List String) : Prop where
  same : ∀ name, name ∈ kept ↔ name ∈ names
  once : kept.Nodup
  order : kept.Pairwise fun a b => names.idxOf a < names.idxOf b

/-- A key that has its context, and its type, only if all keys of its name have the same. -/
def Key.agreed (keys : List Key) (key : Key) : Key :=
  { key with
    context :=
      if ∀ other ∈ keys, other.name = key.name → other.context = key.context then key.context
      else .unspecified
    type :=
      if ∀ other ∈ keys, other.name = key.name → other.type = key.type then key.type
      else .unspecified }

/-- Keys of which those with the same name are the same. -/
def Consistent (keys : List Key) : Prop :=
  ∀ a ∈ keys, ∀ b ∈ keys, a.name = b.name → a = b

namespace Usage

section First

variable {α : Type} (nameOf : α → String)

/-- The items that are the first of their name, but for names that were seen before. -/
def firsts (seen : List String) : List α → List α
  | [] => []
  | item :: rest =>
    if seen.contains (nameOf item) then firsts seen rest
    else item :: firsts (nameOf item :: seen) rest

theorem mem_map_firsts {name : String} (seen : List String) (items : List α) :
    name ∈ (firsts nameOf seen items).map nameOf ↔ name ∈ items.map nameOf ∧ name ∉ seen := by
  fun_induction firsts nameOf seen items with
  | case1 => simp
  | case2 seen item rest found ih =>
    rw [ih, List.map_cons, List.mem_cons]
    rw [List.contains_iff_mem] at found
    constructor
    · rintro ⟨mem, new⟩
      exact ⟨.inr mem, new⟩
    · rintro ⟨rfl | mem, new⟩
      · exact absurd found new
      · exact ⟨mem, new⟩
  | case3 seen item rest new ih =>
    rw [List.contains_iff_mem] at new
    rw [List.map_cons, List.mem_cons, ih, List.map_cons, List.mem_cons, List.mem_cons]
    by_cases head : name = nameOf item
    · simp [head, new]
    · simp [head]

theorem ne_of_mem_firsts {name other : String} {seen : List String} {items : List α}
    (found : name ∈ seen) (mem : other ∈ (firsts nameOf seen items).map nameOf) :
    name ≠ other := by
  rintro rfl
  exact ((mem_map_firsts nameOf seen items).1 mem).2 found

theorem order_firsts (seen : List String) (items : List α) :
    ((firsts nameOf seen items).map nameOf).Pairwise fun a b =>
      (items.map nameOf).idxOf a < (items.map nameOf).idxOf b := by
  fun_induction firsts nameOf seen items with
  | case1 => exact .nil
  | case2 seen item rest found ih =>
    have other : ∀ name ∈ (firsts nameOf seen rest).map nameOf, nameOf item ≠ name :=
      fun _ => ne_of_mem_firsts nameOf (List.contains_iff_mem.1 found)
    refine ih.imp_of_mem fun {a b} memA memB before => ?_
    rw [List.map_cons, List.idxOf_cons_ne _ (other a memA), List.idxOf_cons_ne _ (other b memB)]
    exact Nat.succ_lt_succ before
  | case3 seen item rest new ih =>
    have other : ∀ name ∈ (firsts nameOf (nameOf item :: seen) rest).map nameOf,
        nameOf item ≠ name := fun _ => ne_of_mem_firsts nameOf List.mem_cons_self
    rw [List.map_cons, List.map_cons, List.pairwise_cons]
    constructor
    · intro name mem
      rw [List.idxOf_cons_self, List.idxOf_cons_ne _ (other name mem)]
      exact Nat.succ_pos _
    · refine ih.imp_of_mem fun {a b} memA memB before => ?_
      rw [List.idxOf_cons_ne _ (other a memA), List.idxOf_cons_ne _ (other b memB)]
      exact Nat.succ_lt_succ before

theorem keepsFirst_firsts (items : List α) :
    KeepsFirst (items.map nameOf) ((firsts nameOf [] items).map nameOf) where
  same name := by simp [mem_map_firsts]
  once := (order_firsts nameOf [] items).imp fun before same => by simp [same] at before
  order := order_firsts nameOf [] items

/-- An item that is kept is the first of its name. -/
theorem find?_of_mem_firsts {seen : List String} {items : List α} {item : α}
    (mem : item ∈ firsts nameOf seen items) :
    items.find? (nameOf · == nameOf item) = some item := by
  fun_induction firsts nameOf seen items with
  | case1 => cases mem
  | case2 seen head rest found ih =>
    have other := ne_of_mem_firsts nameOf (List.contains_iff_mem.1 found)
      (List.mem_map_of_mem mem)
    rw [List.find?_cons_of_neg (by simpa using other), ih mem]
  | case3 seen head rest new ih =>
    rcases List.mem_cons.1 mem with rfl | later
    · simp
    · have other := ne_of_mem_firsts nameOf List.mem_cons_self (List.mem_map_of_mem later)
      rw [List.find?_cons_of_neg (by simpa using other), ih later]

/-- Items with different names are all kept. -/
theorem firsts_eq_self {seen : List String} {items : List α} (once : (items.map nameOf).Nodup)
    (new : ∀ name ∈ items.map nameOf, name ∉ seen) : firsts nameOf seen items = items := by
  induction items generalizing seen with
  | nil => rfl
  | cons item rest ih =>
    obtain ⟨newHead, newRest⟩ := List.forall_mem_cons.1 new
    obtain ⟨other, onceRest⟩ := List.nodup_cons.1 once
    have unseen : ∀ name ∈ rest.map nameOf, name ∉ nameOf item :: seen := by
      intro name mem
      rw [List.mem_cons, not_or]
      exact ⟨fun same => other (same ▸ mem), newRest name mem⟩
    rw [firsts, if_neg (by simpa using newHead), ih onceRest unseen]

end First

section KeepFirst

variable {α : Type} (role : Role) (merged : List Key) (keyOf : α → Key) (replace : α → Key → α)

theorem keepFirst_result (seen : List String) (items : List α) :
    (keepFirst role merged keyOf replace seen items).result =
      (firsts (fun item => (keyOf item).name) seen items).map fun item =>
        replace item (mergedKey merged (keyOf item)) := by
  induction items generalizing seen with
  | nil => rfl
  | cons item rest ih =>
    rw [keepFirst, firsts]
    split
    · exact ih seen
    · exact congrArg _ (ih _)

/-- Each item is kept or reported. -/
theorem keepFirst_length (seen : List String) (items : List α) :
    (keepFirst role merged keyOf replace seen items).adjustments.length +
      (firsts (fun item => (keyOf item).name) seen items).length = items.length := by
  induction items generalizing seen with
  | nil => rfl
  | cons item rest ih =>
    rw [keepFirst, firsts, List.length_cons]
    split
    · rw [← ih seen, List.length_cons, Nat.add_right_comm]
    · rw [← ih ((keyOf item).name :: seen), List.length_cons, Nat.add_assoc]

theorem mergedKey_name (key : Key) : (mergedKey merged key).name = key.name := by
  rw [mergedKey]
  cases found : merged.find? (·.name == key.name) with
  | none => rfl
  | some first => simpa using List.find?_some found

variable {merged keyOf replace}

theorem keepFirst_names (keyed : ∀ item key, keyOf (replace item key) = key) (items : List α) :
    KeepsFirst (items.map fun item => (keyOf item).name)
      ((keepFirst role merged keyOf replace [] items).result.map fun item =>
        (keyOf item).name) := by
  rw [keepFirst_result, List.map_map]
  simpa [Function.comp_def, keyed, mergedKey_name] using
    keepsFirst_firsts (fun item => (keyOf item).name) items

/-- An item of the result is the first of its name with the merged key. -/
theorem mem_keepFirst (keyed : ∀ item key, keyOf (replace item key) = key) {items : List α}
    {item : α} (mem : item ∈ (keepFirst role merged keyOf replace [] items).result) :
    ∃ first, items.find? (fun other => (keyOf other).name == (keyOf item).name) = some first ∧
      item = replace first (mergedKey merged (keyOf first)) := by
  rw [keepFirst_result] at mem
  obtain ⟨first, kept, rfl⟩ := List.mem_map.1 mem
  refine ⟨first, ?_, rfl⟩
  rw [keyed, mergedKey_name]
  exact find?_of_mem_firsts (fun item => (keyOf item).name) kept

theorem keepFirst_of_nodup {items : List α}
    (once : (items.map fun item => (keyOf item).name).Nodup)
    (fixed : ∀ item ∈ items, replace item (mergedKey merged (keyOf item)) = item) :
    keepFirst role merged keyOf replace [] items = ⟨items, []⟩ := by
  have all : firsts (fun item => (keyOf item).name) [] items = items :=
    firsts_eq_self _ once (by simp)
  have result := keepFirst_result role merged keyOf replace [] items
  have length := keepFirst_length role merged keyOf replace [] items
  rw [all, List.map_congr_left fixed, List.map_id'] at result
  rw [all, Nat.add_eq_right, List.length_eq_zero_iff] at length
  generalize keepFirst role merged keyOf replace [] items = kept at result length
  obtain ⟨_, _⟩ := kept
  exact congrArg₂ Adjusted.mk result length

end KeepFirst

section Merge

theorem dropped_eq {α : Type} [DecidableEq α] (unspecified own other : α) :
    (if (own != unspecified && own != other) = true then unspecified else own) =
      if other = own then own else unspecified := by
  by_cases same : other = own
  · simp [same]
  · by_cases specified : own = unspecified
    · simp [specified]
    · simp [same, specified, Ne.symm same]

theorem widened_eq (key : Key) (dropsContext dropsType : Bool) :
    let withoutContext := if dropsContext then { key with context := .unspecified } else key
    (if dropsType then { withoutContext with type := .unspecified } else withoutContext) =
      { key with
        context := if dropsContext then .unspecified else key.context
        type := if dropsType then .unspecified else key.type } := by
  cases dropsContext <;> cases dropsType <;> rfl

theorem widen_result (key duplicate : Key) :
    (widen key duplicate).result =
      { key with
        context := if duplicate.context = key.context then key.context else .unspecified
        type := if duplicate.type = key.type then key.type else .unspecified } := by
  rw [← dropped_eq Context.unspecified, ← dropped_eq DataType.unspecified]
  exact widened_eq key _ _

theorem widen_self (key : Key) : widen key key = ⟨key, []⟩ := by
  simp [widen]

/-- A value that is given up when another one is met is kept if and only if all are the same. -/
theorem foldl_dropped {α : Type} [DecidableEq α] (unspecified own : α) (others : List α) :
    others.foldl (fun own other => if other = own then own else unspecified) own =
      if ∀ other ∈ others, other = own then own else unspecified := by
  induction others generalizing own with
  | nil => simp
  | cons other others ih =>
    rw [List.foldl_cons, ih]
    by_cases same : other = own
    · simp [same]
    · simp [same]

theorem foldl_widen (first : Key) (others : List Key) :
    others.foldl (fun key other => (widen key other).result) first =
      { first with
        context := if ∀ other ∈ others, other.context = first.context then first.context
          else .unspecified
        type := if ∀ other ∈ others, other.type = first.type then first.type
          else .unspecified } := by
  have fields : others.foldl (fun key other => (widen key other).result) first =
      { first with
        context := (others.map (·.context)).foldl
          (fun own other => if other = own then own else .unspecified) first.context
        type := (others.map (·.type)).foldl
          (fun own other => if other = own then own else .unspecified) first.type } := by
    induction others generalizing first with
    | nil => rfl
    | cons other others ih =>
      rw [List.foldl_cons, ih, widen_result, List.map_cons, List.map_cons]
      rfl
  rw [fields, foldl_dropped, foldl_dropped]
  simp

/-- What is known of a name after one more key of it. -/
def joined (found : Option Key) (key : Key) : Option Key :=
  some (found.elim key fun first => (widen first key).result)

theorem find?_absorb (merged : List Key) (key : Key) (name : String) :
    (absorb merged key).result.find? (·.name == name) =
      if key.name = name then joined (merged.find? (·.name == name)) key
      else merged.find? (·.name == name) := by
  induction merged with
  | nil => by_cases same : key.name = name <;> simp [absorb, joined, same]
  | cons first rest ih =>
    have kept : (widen first key).result.name = first.name := by rw [widen_result]
    rw [absorb]
    by_cases own : first.name = key.name
    · rw [if_pos own]
      by_cases same : key.name = name
      · simp [own, same, kept, joined]
      · simp [own, same, kept]
    · rw [if_neg own]
      by_cases same : first.name = name
      · have other : ¬key.name = name := fun named => own (same.trans named.symm)
        simp [same, other]
      · simp [same, ih]

/-- The merged key of a name comes from the keys of that name alone. -/
theorem find?_merge (merged keys : List Key) (name : String) :
    (merge merged keys).result.find? (·.name == name) =
      (keys.filter (·.name == name)).foldl joined (merged.find? (·.name == name)) := by
  induction keys generalizing merged with
  | nil => rfl
  | cons key rest ih =>
    rw [merge, ih, find?_absorb]
    by_cases same : key.name = name
    · simp [same]
    · simp [same]

theorem foldl_joined (first : Key) (others : List Key) :
    others.foldl joined (some first) =
      some (others.foldl (fun key other => (widen key other).result) first) := by
  induction others generalizing first with
  | nil => rfl
  | cons other others ih => exact ih (widen first other).result

/-- The merged key of a name is the first of the name, as far as all of the name agree with it. -/
theorem find?_merge_nil (keys : List Key) (name : String) :
    (merge [] keys).result.find? (·.name == name) =
      (keys.find? (·.name == name)).map (Key.agreed keys) := by
  have head : keys.find? (·.name == name) = (keys.filter (·.name == name)).head? :=
    (List.head?_filter).symm
  rw [find?_merge, head]
  cases found : keys.filter (·.name == name) with
  | nil => rfl
  | cons first others =>
    -- All keys of the name agree if the others agree with the first, which agrees with itself.
    have mem (key : Key) : key ∈ keys ∧ key.name = name ↔ key = first ∨ key ∈ others := by
      rw [← List.mem_cons, ← found, List.mem_filter, beq_iff_eq]
    have named : first.name = name := ((mem first).2 (.inl rfl)).2
    have all (p : Key → Prop) (own : p first) :
        (∀ other ∈ keys, other.name = first.name → p other) ↔ ∀ other ∈ others, p other := by
      constructor
      · intro each other among
        obtain ⟨within, same⟩ := (mem other).2 (.inr among)
        exact each other within (same.trans named.symm)
      · intro each other within same
        rcases (mem other).1 ⟨within, same.trans named⟩ with rfl | among
        · exact own
        · exact each other among
    refine (foldl_joined first others).trans (congrArg some ?_)
    rw [foldl_widen, Key.agreed]
    simp only [all (fun other => other.context = first.context) rfl,
      all (fun other => other.type = first.type) rfl]

theorem mergedKey_merge {keys : List Key} {key : Key} (mem : key ∈ keys) :
    ∃ first, keys.find? (·.name == key.name) = some first ∧
      mergedKey (merge [] keys).result key = first.agreed keys := by
  rw [mergedKey, find?_merge_nil]
  cases found : keys.find? (·.name == key.name) with
  | none => simpa using List.find?_eq_none.1 found key mem
  | some first => exact ⟨first, rfl, rfl⟩

section Again

variable {merged keys : List Key} {key : Key}

/-- A key that is the same as all of its name is already the merged one. -/
theorem mergedKey_of_consistent (consistent : Consistent keys) (mem : key ∈ keys) :
    mergedKey (merge [] keys).result key = key := by
  obtain ⟨first, found, result⟩ := mergedKey_merge mem
  have named : first.name = key.name := by simpa using List.find?_some found
  obtain rfl : first = key := consistent first (List.mem_of_find?_eq_some found) key mem named
  have same : ∀ other ∈ keys, other.name = first.name → other = first :=
    fun other within => consistent other within first mem
  rw [result, Key.agreed, if_pos fun other within name => by rw [same other within name],
    if_pos fun other within name => by rw [same other within name]]

theorem absorb_of_same (same : ∀ first ∈ merged, first.name = key.name → first = key) :
    (absorb merged key).adjustments = [] ∧
      ∀ other ∈ (absorb merged key).result, other ∈ merged ∨ other = key := by
  induction merged with
  | nil => simp [absorb]
  | cons first rest ih =>
    obtain ⟨sameFirst, sameRest⟩ := List.forall_mem_cons.1 same
    rw [absorb]
    split
    · next own =>
      obtain rfl := sameFirst own
      rw [widen_self]
      exact ⟨rfl, fun other within => .inl within⟩
    · obtain ⟨none, within⟩ := ih sameRest
      refine ⟨none, List.forall_mem_cons.2 ⟨.inl List.mem_cons_self, fun other mem => ?_⟩⟩
      exact (within other mem).imp_left (List.mem_cons_of_mem first)

theorem merge_of_consistent (consistent : Consistent (merged ++ keys)) :
    (merge merged keys).adjustments = [] := by
  -- What was merged so far is consistent with what is left, since it only has keys that were met.
  induction keys generalizing merged with
  | nil => rfl
  | cons key rest ih =>
    have own : key ∈ merged ++ key :: rest := by simp
    have same : ∀ first ∈ merged, first.name = key.name → first = key :=
      fun first mem => consistent first (List.mem_append_left _ mem) key own
    obtain ⟨none, within⟩ := absorb_of_same same
    have subset : ∀ other ∈ (absorb merged key).result ++ rest, other ∈ merged ++ key :: rest := by
      intro other mem
      rcases List.mem_append.1 mem with absorbed | later
      · rcases within other absorbed with before | rfl
        · exact List.mem_append_left _ before
        · exact own
      · simp [later]
    have later := ih fun a memA b memB => consistent a (subset a memA) b (subset b memB)
    rw [merge]
    simp only [none, later, List.append_nil]

end Again

end Merge

/-- What the keys of a usage are when the keys of one name are merged. -/
structure Merged (usage merged : Usage) : Prop where
  selected : KeepsFirst (usage.selected.map (·.name)) (merged.selected.map (·.name))
  grouped : KeepsFirst (usage.grouped.map (·.name)) (merged.grouped.map (·.name))
  ordered : KeepsFirst (usage.ordered.map (·.key.name)) (merged.ordered.map (·.key.name))
  /-- Results are ordered in the direction that was given first. -/
  direction : ∀ item ∈ merged.ordered, ∃ first,
    usage.ordered.find? (·.key.name == item.key.name) = some first ∧
      item.direction = first.direction
  /-- The key of a name is the first of the name, as far as all agree with it. -/
  key : ∀ key ∈ merged.keys, ∃ first,
    usage.keys.find? (·.name == key.name) = some first ∧ key = first.agreed usage.keys
  /-- All roles use the same key for a name. -/
  shared : Consistent merged.keys

section MergeDuplicates

variable (usage : Usage)

/-- Every key of the result is the merged key of one that was used. -/
theorem mem_keys_mergeDuplicates {key : Key} (mem : key ∈ usage.mergeDuplicates.result.keys) :
    ∃ first ∈ usage.keys, key = mergedKey (merge [] usage.keys).result first := by
  simp only [keys, List.mem_append, List.mem_map] at mem ⊢
  rcases mem with (selected | grouped) | ⟨item, ordered, rfl⟩
  · obtain ⟨first, found, same⟩ := mem_keepFirst .selected (fun _ _ => rfl) selected
    exact ⟨first, .inl (.inl (List.mem_of_find?_eq_some found)), same⟩
  · obtain ⟨first, found, same⟩ := mem_keepFirst .grouped (fun _ _ => rfl) grouped
    exact ⟨first, .inl (.inr (List.mem_of_find?_eq_some found)), same⟩
  · obtain ⟨first, found, rfl⟩ := mem_keepFirst .ordered (fun _ _ => rfl) ordered
    exact ⟨first.key, .inr ⟨first, List.mem_of_find?_eq_some found, rfl⟩, rfl⟩

theorem key_mergeDuplicates {key : Key} (mem : key ∈ usage.mergeDuplicates.result.keys) :
    ∃ first, usage.keys.find? (·.name == key.name) = some first ∧
      key = first.agreed usage.keys := by
  obtain ⟨used, within, rfl⟩ := mem_keys_mergeDuplicates usage mem
  rw [mergedKey_name]
  exact mergedKey_merge within

theorem consistent_mergeDuplicates : Consistent usage.mergeDuplicates.result.keys := by
  intro a memA b memB named
  obtain ⟨first, foundA, agreedA⟩ := key_mergeDuplicates usage memA
  obtain ⟨again, foundB, agreedB⟩ := key_mergeDuplicates usage memB
  rw [named, foundB] at foundA
  rw [agreedA, agreedB, Option.some.inj foundA]

theorem mergeDuplicates_merged : usage.Merged usage.mergeDuplicates.result where
  selected := keepFirst_names .selected (fun _ _ => rfl) usage.selected
  grouped := keepFirst_names .grouped (fun _ _ => rfl) usage.grouped
  ordered := keepFirst_names .ordered (fun _ _ => rfl) usage.ordered
  direction := by
    intro item mem
    obtain ⟨first, found, same⟩ := mem_keepFirst .ordered (fun _ _ => rfl) mem
    exact ⟨first, found, by rw [same]⟩
  key _ := key_mergeDuplicates usage
  shared := consistent_mergeDuplicates usage

/-- A usage in which names are used once in each role and for one key stays as it is. -/
theorem mergeDuplicates_of_once (consistent : Consistent usage.keys)
    (selected : (usage.selected.map (·.name)).Nodup)
    (grouped : (usage.grouped.map (·.name)).Nodup)
    (ordered : (usage.ordered.map (·.key.name)).Nodup) :
    usage.mergeDuplicates = ⟨usage, []⟩ := by
  have merged {key : Key} (mem : key ∈ usage.keys) := mergedKey_of_consistent consistent mem
  have none : (merge [] usage.keys).adjustments = [] := merge_of_consistent consistent
  have keepSelected : keepFirst .selected (merge [] usage.keys).result id (fun _ key => key) []
      usage.selected = ⟨usage.selected, []⟩ :=
    keepFirst_of_nodup .selected selected fun key mem => merged (by simp [keys, mem])
  have keepGrouped : keepFirst .grouped (merge [] usage.keys).result id (fun _ key => key) []
      usage.grouped = ⟨usage.grouped, []⟩ :=
    keepFirst_of_nodup .grouped grouped fun key mem => merged (by simp [keys, mem])
  have keepOrdered : keepFirst .ordered (merge [] usage.keys).result OrderKey.key
      (fun item key => { item with key }) [] usage.ordered = ⟨usage.ordered, []⟩ := by
    refine keepFirst_of_nodup .ordered ordered fun item mem => ?_
    have used : item.key ∈ usage.keys := List.mem_append_right _ (List.mem_map_of_mem mem)
    rw [merged used]
  simp only [mergeDuplicates, keepSelected, keepGrouped, keepOrdered, none, List.append_nil]

/-- Keys of one name are merged into one: each role uses each of its names once, in the order in
which they first occur, and all roles use for a name the first key of it, without the context or the
type on which the keys of the name differ. Merged again, nothing changes and nothing is reported. -/
theorem mergeDuplicates_once :
    usage.Merged usage.mergeDuplicates.result ∧
      usage.mergeDuplicates.result.mergeDuplicates = ⟨usage.mergeDuplicates.result, []⟩ := by
  have merged := mergeDuplicates_merged usage
  exact ⟨merged, mergeDuplicates_of_once _ merged.shared merged.selected.once merged.grouped.once
    merged.ordered.once⟩

end MergeDuplicates

end Usage

end TelemetryQuery.Field
