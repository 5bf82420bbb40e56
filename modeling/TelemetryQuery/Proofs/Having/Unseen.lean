import TelemetryQuery.Proofs.Having.Slot
/- Keys that do not stand in a condition: their passes leave it as it is. -/
namespace TelemetryQuery.Having

variable {table : List (String × String)} {ending : List Char}

/-- A key that does not stand in a text, whatever its blanks, and cannot stand in a mark. -/
structure Unseen (text key : List Char) : Prop where
  apart : ¬strip key <:+: strip text
  named : ∃ c ∈ strip key, c.isDigit = false
  clean : '\x00' ∉ key

theorem Unseen.of_infix {part text key : List Char} (unseen : Unseen text key)
    (within : part <:+: text) : Unseen part key where
  apart found := unseen.apart (found.trans (within.filter _))
  named := unseen.named
  clean := unseen.clean

theorem mem_of_mem_strip {c : Char} {text : List Char} (mem : c ∈ strip text) : c ∈ text :=
  (List.mem_filter.1 mem).1

/-- A pass for a text that stands nowhere leaves the condition as it is. -/
theorem markMatches_missed {text key : List Char}
    (missed : ∀ taken, taken <:+: text → strip taken ≠ strip key) (mark : List Char)
    (before : Option Char) : markMatches (referencePattern key) mark before text = text := by
  have none : ∀ (before : Option Char) {rest : List Char}, rest <:+ text →
      matchLength? (referencePattern key) before rest = none := by
    intro before rest suffix
    rw [Option.eq_none_iff_forall_ne_some]
    intro n found
    obtain ⟨taken, after, rfl, same⟩ := found_strip found
    exact missed taken ((List.prefix_append taken after).isInfix.trans suffix.isInfix) same
  have ended : markMatches (referencePattern key) mark (text.getLast?.or before) [] = [] := by
    rw [markMatches, none _ List.nil_suffix]
    rfl
  have inert : markMatches (referencePattern key) mark before (text ++ []) =
      text ++ markMatches (referencePattern key) mark (text.getLast?.or before) [] := by
    refine markMatches_inert fun start c rest split => ?_
    rw [List.append_nil]
    exact none _ ⟨start, split.symm⟩
  rw [ended, List.append_nil] at inert
  exact inert

/-- A part of a text without a control character lies on one side of the character. -/
theorem infix_of_control {control : Char} {part first second : List Char} (clean : control ∉ part)
    (within : part <:+: first ++ control :: second) : part <:+: first ∨ part <:+: second := by
  have prefixed : ∀ {start : List Char}, control ∉ start → start <+: control :: second →
      start = [] := by
    intro start clean isStart
    rcases List.prefix_cons_iff.1 isStart with same | ⟨rest, rfl, _⟩
    · exact same
    · exact absurd List.mem_cons_self clean
  rcases List.infix_append_iff.1 within with left | right | ⟨start, rest, rfl, left, right⟩
  · exact .inl left
  · rcases List.infix_cons_iff.1 right with isStart | right
    · rw [prefixed clean isStart]
      exact .inl (List.nil_infix)
    · exact .inr right
  · rw [List.mem_append, not_or] at clean
    rw [prefixed clean.2 right, List.append_nil]
    exact .inl left.isInfix

/-- What stands in a condition with marks stands in the condition too, or within a mark. -/
theorem infix_marked {part : List Char} (clean : '\x00' ∉ part) {passes : Nat} {spots : List Spot}
    {start : List Char} (within : part <:+: start ++ shown (marked passes) ending spots) :
    part <:+: start ++ shown asWritten ending spots ∨ ∀ c ∈ part, c.isDigit = true := by
  induction spots generalizing start with
  | nil => exact .inl within
  | cons spot rest ih =>
    obtain ⟨gap, slot⟩ := spot
    by_cases isMarked : ∃ i operand raw, slot = .reference i operand raw ∧ i < passes
    · obtain ⟨i, operand, raw, rfl, before⟩ := isMarked
      have layout :
          start ++ shown (marked passes) ending (⟨gap, .reference i operand raw⟩ :: rest) =
            (start ++ gap) ++ '\x00' :: ((toString i).toList ++
            '\x00' :: ([] ++ shown (marked passes) ending rest)) := by
        simp [shown, Slot.shown, marked, before, markOf]
      rw [layout] at within
      rw [shown, ← List.append_assoc]
      rcases infix_of_control clean within with left | right
      · exact .inl (left.trans (List.prefix_append _ _).isInfix)
      · rcases infix_of_control clean right with inside | right
        · exact .inr fun c mem => isDigit_toString (inside.subset mem)
        · refine (ih right).imp (fun found => ?_) id
          rw [List.nil_append] at found
          rw [← List.append_assoc]
          exact found.trans (List.suffix_append _ _).isInfix
    · have same : slot.shown (marked passes) = slot.shown asWritten := by
        cases slot with
        | reference i operand raw =>
          have after : ¬i < passes := fun before => isMarked ⟨i, operand, raw, rfl, before⟩
          rw [Slot.shown, marked, if_neg after]
          rfl
        | _ => rfl
      rw [shown, same, ← List.append_assoc, ← List.append_assoc] at within
      rw [shown, ← List.append_assoc, ← List.append_assoc]
      exact ih within

/-- An unseen key does not stand in a condition with marks. -/
theorem Unseen.missed {spots : List Spot} {key : List Char}
    (unseen : Unseen (shown asWritten ending spots) key) (passes : Nat) (taken : List Char)
    (within : taken <:+: shown (marked passes) ending spots) : strip taken ≠ strip key := by
  intro same
  have clean : '\x00' ∉ taken := by
    intro mem
    have inside : '\x00' ∈ strip taken := mem_strip mem (by decide)
    rw [same] at inside
    exact unseen.clean (mem_of_mem_strip inside)
  rcases @infix_marked _ _ clean passes spots [] within with found | digits
  · refine unseen.apart ?_
    rw [← same]
    exact found.filter _
  · obtain ⟨c, mem, other⟩ := unseen.named
    rw [← same] at mem
    rw [digits c (mem_of_mem_strip mem)] at other
    cases other

theorem marked_of_ne {passes i : Nat} (other : i ≠ passes) (raw : List Char) :
    marked (passes + 1) i raw = marked passes i raw := by
  rw [marked, marked]
  congr 1
  rw [eq_iff_iff]
  omega

/-- No reference of a condition is to an unseen key. -/
theorem shown_unseen {spots : List Spot} (arranged : Arranged table ending spots) {i : Nat}
    {key : String} (atIndex : table[i]?.map (·.1) = some key)
    (unseen : Unseen (shown asWritten ending spots) key.toList) :
    shown (marked (i + 1)) ending spots = shown (marked i) ending spots := by
  induction spots with
  | nil => rfl
  | cons spot rest ih =>
    obtain ⟨fits, others⟩ := arranged
    obtain ⟨gap, slot⟩ := spot
    rw [shown] at unseen
    have later := ih others (unseen.of_infix ((List.suffix_append _ _).trans
      (List.suffix_append gap _)).isInfix)
    rw [shown, shown, later]
    congr 2
    cases slot with
    | reference j operand raw =>
      obtain ⟨shaped, index, written⟩ := fits.proper
      refine marked_of_ne ?_ raw
      rintro rfl
      rw [index] at atIndex
      obtain rfl := Option.some.inj atIndex
      refine unseen.apart ?_
      rw [Operand.strip_render _ (operand.lexical_of_isShaped shaped), ← written.strip_eq shaped,
        strip_append, strip_append]
      exact List.infix_append' _ _ _
    | _ => rfl

end TelemetryQuery.Having
