import Mathlib.Data.List.Nodup
import TelemetryQuery.Proofs.Having.Arrangement
/- Tables of columns: the order of their keys, and the columns that references stand for. -/
namespace TelemetryQuery.Having

/-- A longer key is looked for before a shorter one; texts decide between keys of one length. -/
def precedes (a b : String × String) : Bool :=
  b.1.utf8ByteSize < a.1.utf8ByteSize || (a.1.utf8ByteSize == b.1.utf8ByteSize && a.1 ≤ b.1)

theorem precedes_iff {a b : String × String} :
    precedes a b = true ↔ b.1.utf8ByteSize < a.1.utf8ByteSize ∨
      a.1.utf8ByteSize = b.1.utf8ByteSize ∧ a.1 ≤ b.1 := by
  simp [precedes]

theorem precedes_trans (a b c : String × String) (first : precedes a b = true)
    (second : precedes b c = true) : precedes a c = true := by
  rw [precedes_iff] at first second ⊢
  rcases first with shorter | ⟨same, le⟩ <;> rcases second with shorter' | ⟨same', le'⟩
  · exact .inl (Nat.lt_trans shorter' shorter)
  · exact .inl (same' ▸ shorter)
  · exact .inl (same ▸ shorter')
  · exact .inr ⟨same.trans same', String.le_trans le le'⟩

theorem precedes_total (a b : String × String) : (precedes a b || precedes b a) = true := by
  rw [Bool.or_eq_true, precedes_iff, precedes_iff]
  rcases Nat.lt_trichotomy a.1.utf8ByteSize b.1.utf8ByteSize with shorter | same | longer
  · exact .inr (.inl shorter)
  · rcases String.le_total a.1 b.1 with le | le
    · exact .inl (.inr ⟨same, le⟩)
    · exact .inr (.inr ⟨same.symm, le⟩)
  · exact .inl (.inl longer)

theorem longestFirst_perm (columns : Columns) : (longestFirst columns).Perm columns :=
  List.mergeSort_perm columns precedes

theorem longestFirst_sorted (columns : Columns) :
    (longestFirst columns).Pairwise fun a b => b.1.utf8ByteSize ≤ a.1.utf8ByteSize := by
  have sorted : (longestFirst columns).Pairwise fun a b => precedes a b = true :=
    List.pairwise_mergeSort precedes_trans precedes_total columns
  refine sorted.imp fun {a b} before => ?_
  rcases precedes_iff.1 before with shorter | ⟨same, _⟩
  · exact Nat.le_of_lt shorter
  · exact Nat.le_of_eq same.symm

/-- There is one order in which columns are looked for. -/
theorem longestFirst_eq {columns : Columns} {sorted : List (String × String)}
    (distinct : columns.references.Nodup) (perm : sorted.Perm columns)
    (ordered : sorted.Pairwise fun a b => precedes a b = true) :
    longestFirst columns = sorted := by
  refine List.Perm.eq_of_pairwise ?_
    (List.pairwise_mergeSort precedes_trans precedes_total columns) ordered
    ((longestFirst_perm columns).trans perm.symm)
  intro a b inside among first second
  have mem := (longestFirst_perm columns).subset inside
  refine List.inj_on_of_nodup_map distinct mem (perm.subset among) ?_
  rcases precedes_iff.1 first with shorter | ⟨same, le⟩ <;>
    rcases precedes_iff.1 second with shorter' | ⟨same', le'⟩
  · exact absurd shorter (Nat.lt_asymm shorter')
  · exact absurd shorter (Nat.lt_irrefl _ <| same' ▸ ·)
  · exact absurd shorter' (Nat.lt_irrefl _ <| same ▸ ·)
  · exact String.le_antisymm le le'

/-- Columns are looked for from the longest key to the shortest. -/
theorem ordered_longestFirst {columns : Columns} (distinct : columns.references.Nodup) :
    Ordered (longestFirst columns) := by
  have nodup : ((longestFirst columns).map (·.1)).Nodup :=
    ((longestFirst_perm columns).map Prod.fst).nodup_iff.2 distinct
  constructor
  · intro i j key first second
    rw [← List.getElem?_map] at first second
    obtain ⟨inside, _⟩ := List.getElem?_eq_some_iff.1 first
    exact (List.getElem?_inj inside nodup).1 (first.trans second.symm)
  · intro i j a b le first second
    obtain ⟨x, found, rfl⟩ := Option.map_eq_some_iff.1 first
    obtain ⟨y, found', rfl⟩ := Option.map_eq_some_iff.1 second
    rcases Nat.lt_or_eq_of_le le with before | rfl
    · obtain ⟨inside, rfl⟩ := List.getElem?_eq_some_iff.1 found
      obtain ⟨inside', rfl⟩ := List.getElem?_eq_some_iff.1 found'
      exact List.pairwise_iff_getElem.1 (longestFirst_sorted columns) i j inside inside' before
    · rw [found] at found'
      obtain rfl := Option.some.inj found'
      exact Nat.le_refl _

namespace Columns

/-- The column that a reference stands for; the blanks of a call do not matter. -/
def column? (columns : Columns) : Operand → Option String
  | .identifier name => columns.lookup name
  | .call name arguments =>
    (columns.find? fun entry => Text.removeBlanks entry.1 =
      Text.removeBlanks (Operand.call name arguments).render).map (·.2)
  | _ => none

/-- The column that a reference stands for in place of it. -/
def rename (columns : Columns) (operand : Operand) : Operand :=
  (columns.column? operand).elim operand .identifier

theorem rename_found {columns : Columns} {operand : Operand} {column : String}
    (found : columns.column? operand = some column) :
    columns.rename operand = .identifier column := by
  rw [rename, found]
  rfl

theorem rename_missed {columns : Columns} {operand : Operand}
    (missed : columns.column? operand = none) : columns.rename operand = operand := by
  rw [rename, missed]
  rfl

/-- Columns that are words, whose references are of the plain shape or do not stand in a text. -/
structure Suits (columns : Columns) (text : List Char) : Prop where
  keys : ∀ entry ∈ columns, IsKey entry.1 ∨ Unseen text entry.1.toList
  distinct : columns.references.Nodup
  targets : ∀ entry ∈ columns, IsTarget entry.2

/-- A reference that is a key, or a column and no key. -/
def Holds (columns : Columns) (operand : Operand) : Prop :=
  (operand.isShaped = true ∧ ∃ column, (operand.render, column) ∈ columns) ∨
    ∃ name ∈ columns.targets, operand = .identifier name ∧ isColumn name = true ∧
      name ∉ columns.references

theorem names_rename (columns : Columns) : Names columns.rename := by
  intro operand
  cases found : columns.column? operand with
  | none => exact .inr (rename_missed found)
  | some column => exact .inl ⟨column, rename_found found⟩

theorem lookup_of_mem {columns : Columns} (distinct : columns.references.Nodup)
    {key column : String} (mem : (key, column) ∈ columns) : columns.lookup key = some column := by
  obtain ⟨before, after, rfl⟩ := List.append_of_mem mem
  refine List.lookup_eq_some_iff.2 ⟨before, after, rfl, fun entry inside => ?_⟩
  rw [references, List.map_append, List.map_cons] at distinct
  have apart : entry.1 ≠ key := (List.nodup_append.1 distinct).2.2 entry.1
    (List.mem_map_of_mem inside) key List.mem_cons_self
  simpa using apart.symm

variable {columns : Columns} {text : List Char} {operand : Operand}

/-- A key that a reference of a text is, but for its blanks, is the text of the reference. -/
theorem Suits.key_eq (suits : columns.Suits text)
    (lexical : ∀ word ∈ operand.words, word.Lexical)
    (stands : strip operand.render.toList <:+: strip text) {entry : String × String}
    (mem : entry ∈ columns) (same : strip entry.1.toList = strip operand.render.toList) :
    operand.isShaped = true ∧ entry.1 = operand.render := by
  rcases suits.keys entry mem with ⟨key, shaped, render⟩ | unseen
  · rw [render, key.strip_render (key.lexical_of_isShaped shaped), operand.strip_render lexical]
      at same
    have follows : FollowsArgument [] := nofun
    obtain ⟨rfl, _⟩ := operand.tight_unique lexical shaped follows.followsOperand follows
      (by rw [List.append_nil, List.append_nil, same])
    exact ⟨shaped, render⟩
  · rw [← same] at stands
    exact absurd stands unseen.apart

theorem strip_removeBlanks {first second : String} :
    Text.removeBlanks first = Text.removeBlanks second ↔
      strip first.toList = strip second.toList := by
  rw [Text.removeBlanks, Text.removeBlanks, String.ofList_inj]
  rfl

/-- A reference that is a key stands for the column of the key. -/
theorem Suits.rename_key (suits : columns.Suits text) (shaped : operand.isShaped = true)
    (stands : strip operand.render.toList <:+: strip text) {column : String}
    (mem : (operand.render, column) ∈ columns) : columns.rename operand = .identifier column := by
  cases operand with
  | identifier name =>
    exact rename_found (lookup_of_mem suits.distinct mem)
  | call name arguments =>
    refine rename_found ?_
    rw [column?]
    cases found : columns.find? fun entry => Text.removeBlanks entry.1 =
        Text.removeBlanks (Operand.call name arguments).render with
    | none =>
      have missed := List.find?_eq_none.1 found _ mem
      simp at missed
    | some entry =>
      obtain ⟨key, other⟩ := entry
      have same := strip_removeBlanks.1 (by simpa using List.find?_some found)
      have inside := List.mem_of_find?_eq_some found
      obtain ⟨_, rfl⟩ := suits.key_eq (Operand.lexical_of_isShaped _ shaped) stands inside same
      have first := lookup_of_mem suits.distinct mem
      rw [lookup_of_mem suits.distinct inside] at first
      obtain rfl := Option.some.inj first
      rfl
  | _ => cases shaped

theorem Suits.renames (suits : columns.Suits text) :
    Renames (longestFirst columns) text columns.rename where
  key shaped stands found :=
    suits.rename_key shaped stands ((longestFirst_perm columns).subset (List.mem_of_getElem? found))
  other {name} other := by
    have missed : columns.lookup name = none := by
      rw [List.lookup_eq_none_iff]
      intro entry mem
      have different := other entry ((longestFirst_perm columns).symm.subset mem)
      simpa using different.symm
    exact rename_missed missed

theorem Suits.holds (suits : columns.Suits text)
    (lexical : ∀ word ∈ operand.words, word.Lexical)
    (stands : strip operand.render.toList <:+: strip text)
    (proper : (Piece.reference operand).isProper = true)
    (known : ∀ reference ∈ operand.references, columns.knows reference = true) :
    columns.Holds operand := by
  have keyed : ∀ {entry : String × String}, entry ∈ columns →
      strip entry.1.toList = strip operand.render.toList →
      operand.isShaped = true ∧ ∃ column, (operand.render, column) ∈ columns := by
    intro entry mem same
    obtain ⟨shaped, render⟩ := suits.key_eq lexical stands mem same
    exact ⟨shaped, entry.2, by rw [← render]; exact mem⟩
  cases operand with
  | identifier name =>
    have known := known (.identifier name) (by rw [Operand.references]; exact List.mem_cons_self)
    rw [Columns.knows, Bool.or_eq_true, List.contains_iff_mem, List.contains_iff_mem] at known
    by_cases isKey : name ∈ columns.references
    · obtain ⟨entry, mem, rfl⟩ := List.mem_map.1 isKey
      exact .inl (keyed mem rfl)
    · have target := known.resolve_left isKey
      obtain ⟨entry, mem, rfl⟩ := List.mem_map.1 target
      have unreserved := (lexical _ List.mem_cons_self).unreserved rfl
      exact .inr ⟨entry.2, target, rfl, isColumn_iff.2 ⟨suits.targets entry mem, unreserved⟩, isKey⟩
  | call name arguments =>
    have known := known (.call name (Operand.call name arguments).render)
      (by rw [Operand.references]; exact List.mem_cons_self)
    rw [Columns.knows, List.contains_iff_mem, List.mem_map] at known
    obtain ⟨_, isKey, same⟩ := known
    obtain ⟨entry, mem, rfl⟩ := List.mem_map.1 isKey
    exact .inl (keyed mem (strip_removeBlanks.1 same))
  | _ => cases proper

theorem Holds.placed (holds : columns.Holds operand) :
    (Piece.reference operand).Placed (longestFirst columns) := by
  rcases holds with ⟨shaped, column, mem⟩ | ⟨name, _, same, column, other⟩
  · obtain ⟨i, found⟩ := List.getElem?_of_mem ((longestFirst_perm columns).symm.subset mem)
    exact .inl ⟨shaped, i, by rw [found]; rfl⟩
  · refine .inr ⟨name, same, column, fun key isKey equal => other ?_⟩
    rw [← equal]
    exact List.mem_map_of_mem ((longestFirst_perm columns).subset isKey)

/-- A reference that columns hold stands for a column. -/
theorem Suits.rename_target (suits : columns.Suits text)
    (stands : strip operand.render.toList <:+: strip text) (holds : columns.Holds operand) :
    ∃ column ∈ columns.targets, columns.rename operand = .identifier column := by
  rcases holds with ⟨shaped, column, mem⟩ | ⟨name, target, rfl, _, other⟩
  · exact ⟨column, List.mem_map_of_mem mem, suits.rename_key shaped stands mem⟩
  · refine ⟨name, target, suits.renames.other fun entry mem same => other ?_⟩
    rw [← same]
    exact List.mem_map_of_mem ((longestFirst_perm columns).subset mem)

end Columns

end TelemetryQuery.Having
