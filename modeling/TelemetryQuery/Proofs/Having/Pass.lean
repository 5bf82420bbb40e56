import TelemetryQuery.Proofs.Having.Unseen
/- The passes of a substitution: each marks the references of one key, and the marks are filled
with columns at the end. -/
namespace TelemetryQuery.Having

variable {control : Char} {spots : List Spot} {key : Operand}

variable {table : List (String × String)} {ending : List Char}

theorem stops_shown {slot : Slot} {rest : List Spot} {display : Nat → List Char → List Char}
    (shows : Shows display) (arranged : Arranged table ending rest)
    (stops : slot.Stops (shown asWritten ending rest)) :
    slot.Stops (shown display ending rest) := by
  cases slot with
  | mark => exact trivial
  | number => exact trivial
  | word chars =>
    exact ⟨edge_shown arranged stops.1 display,
      fun named => unopened_shown arranged shows (stops.2 named)⟩
  | reference i operand raw =>
    intro name same
    obtain ⟨edge, unopened⟩ := stops name same
    exact ⟨edge_shown arranged edge display, unopened_shown arranged shows unopened⟩

/-- Text that ends with an edge ends with no word. -/
theorem last_edge {start : List Char} {c : Char} (edge : isEdge c = true) (before : Option Char) :
    ((start ++ [c]).getLast?.or before).any Text.isWord = false := by
  rw [List.getLast?_concat, Option.some_or, Option.any_some]
  exact (isEdge_cases edge).2

theorem isEdge_mark {c : Char} (mark : c ∈ markChars) : isEdge c = true := by
  rw [isEdge, decide_eq_true mark]
  simp

/-- Where a reference follows a slot directly, the slot ends with no word. -/
theorem Spot.Fits.apart {spot next : Spot} {rest : List Spot} (fits : spot.Fits table ending rest)
    (arranged : Arranged table ending rest) (follows : next ∈ rest.head?) (direct : next.gap = [])
    (reference : next.slot.isReference = true) (passes : Nat) (before : Option Char) :
    ((spot.slot.shown (marked passes)).getLast?.or before).any Text.isWord = false := by
  have notEdge : ¬Edge (shown asWritten ending rest) := by
    intro edge
    rw [not_reference_of_edge arranged edge follows direct] at reference
    cases reference
  obtain ⟨gap, slot⟩ := spot
  cases slot with
  | mark kind chars =>
    obtain ⟨nonempty, marks⟩ := fits.proper
    have last := marks _ (List.getLast_mem nonempty)
    rw [Slot.shown, ← List.dropLast_append_getLast nonempty]
    exact last_edge (isEdge_mark last) before
  | number chars =>
    rw [fits.number rfl next follows] at reference
    cases reference
  | word chars => exact absurd fits.stops.1 notEdge
  | reference i operand raw =>
    rw [Slot.shown, marked]
    split
    · exact last_edge (by decide) before
    · obtain ⟨shaped, _, written⟩ := fits.proper
      cases operand with
      | identifier name => exact absurd (fits.stops name rfl).1 notEdge
      | call name arguments =>
        obtain ⟨start, rfl⟩ := written.closed
        exact last_edge (by decide) before
      | _ => cases shaped

theorem markMatches_nil (shaped : key.isShaped = true) (mark : List Char) (before : Option Char) :
    markMatches (referencePattern key.render.toList) mark before [] = [] := by
  have none : matchLength? (referencePattern key.render.toList) before [] = none := by
    rw [Option.eq_none_iff_forall_ne_some]
    intro n found
    have starts := (found_starts shaped found).2.1
    cases starts
  rw [markMatches, none]
  rfl

theorem blank_inert (shaped : key.isShaped = true) {gap : List Char} (blank : Blank gap)
    (before : Option Char) (rest : List Char) : Inert key before gap rest := by
  refine inert_of_no_letter shaped fun c mem => ?_
  cases starts : startsIdentifier c with
  | false => rfl
  | true =>
    have solid := not_blank_of_starts starts
    rw [blank c mem] at solid
    cases solid

/-- Blanks end with no word, whatever stands before them. -/
theorem last_blank {gap : List Char} {before : Option Char} (blank : Blank gap)
    (direct : gap = [] → before.any Text.isWord = false) :
    (gap.getLast?.or before).any Text.isWord = false := by
  by_cases empty : gap = []
  · subst empty
    exact direct rfl
  · rw [← List.dropLast_append_getLast empty]
    refine last_edge ?_ before
    rw [isEdge, blank _ (List.getLast_mem empty)]
    rfl

/-- A reference that no word touches is marked as a whole. -/
theorem markMatches_reference {operand : Operand} {raw mark rest : List Char}
    {before : Option Char} (written : Written operand raw) (shaped : operand.isShaped = true)
    (edge : before.any Text.isWord = false)
    (ends : ∀ name, operand = .identifier name → rest.head?.any Text.isWord = false) :
    markMatches (referencePattern operand.render.toList) mark before (raw ++ rest) =
      mark ++ markMatches (referencePattern operand.render.toList) mark raw.getLast? rest := by
  obtain ⟨c, more, split, -⟩ := written.starts shaped
  have nonempty : raw ≠ [] := by
    rw [split]
    exact List.cons_ne_nil c more
  exact markMatches_found nonempty (written.found shaped edge ends)

theorem Slot.shown_marked_of_ne {slot : Slot} {i : Nat}
    (elsewhere : ∀ j operand raw, slot = .reference j operand raw → j ≠ i) :
    slot.shown (marked (i + 1)) = slot.shown (marked i) := by
  cases slot with
  | reference j operand raw => exact marked_of_ne (elsewhere j operand raw rfl) raw
  | _ => rfl

/-- One pass puts the mark of a key in place of its references, and changes nothing else. -/
theorem markMatches_shown (ordered : Ordered table) {i : Nat} (keyShaped : key.isShaped = true)
    (atIndex : table[i]?.map (·.1) = some key.render) (arranged : Arranged table ending spots)
    {before : Option Char}
    (apart : ∀ spot ∈ spots.head?, spot.gap = [] → spot.slot.isReference = true →
      before.any Text.isWord = false) :
    markMatches (referencePattern key.render.toList) (markOf '\x00' i) before
      (shown (marked i) ending spots) = shown (marked (i + 1)) ending spots := by
  induction spots generalizing before with
  | nil =>
    have inert : markMatches (referencePattern key.render.toList) (markOf '\x00' i) before
        (ending ++ []) = ending ++ _ :=
      markMatches_inert (blank_inert keyShaped (show Blank ending from arranged) before [])
    rw [markMatches_nil keyShaped, List.append_nil] at inert
    exact inert
  | cons spot rest ih =>
    obtain ⟨fits, others⟩ := arranged
    obtain ⟨gap, slot⟩ := spot
    have later : ∀ before, ∀ next ∈ rest.head?, next.gap = [] → next.slot.isReference = true →
        ((slot.shown (marked i)).getLast?.or before).any Text.isWord = false :=
      fun before next follows direct reference =>
        fits.apart others follows direct reference i before
    have stops : slot.Stops (shown (marked i) ending rest) :=
      stops_shown (shows_marked i) others fits.stops
    rw [shown, shown, markMatches_inert (blank_inert keyShaped fits.blank before _)]
    congr 1
    by_cases here : ∃ operand raw, slot = .reference i operand raw
    · obtain ⟨operand, raw, rfl⟩ := here
      obtain ⟨shaped, index, written⟩ := fits.proper
      have same : key.render = operand.render := by
        rw [atIndex] at index
        exact Option.some.inj index
      have edge := last_blank fits.blank fun direct => apart _ rfl direct rfl
      have asIs : Slot.shown (marked i) (.reference i operand raw) = raw := by
        simp [Slot.shown, marked]
      have asMark : Slot.shown (marked (i + 1)) (.reference i operand raw) = markOf '\x00' i := by
        simp [Slot.shown, marked]
      rw [asIs] at later ⊢
      rw [asMark, same, markMatches_reference written shaped edge
        (fun name named => (stops name named).1.not_word), ← same]
      congr 1
      refine ih others fun next follows direct reference => ?_
      have last := later none next follows direct reference
      rw [Option.or_none] at last
      exact last
    · have elsewhere : ∀ j operand raw, slot = .reference j operand raw → j ≠ i := by
        rintro j operand raw rfl rfl
        exact here ⟨operand, raw, rfl⟩
      rw [Slot.shown_marked_of_ne elsewhere, markMatches_inert (Slot.inert ordered keyShaped atIndex
        fits.proper stops elsewhere)]
      congr 1
      exact ih others (later _)

/-- All passes, from the key at a position on. -/
theorem foldl_shown (ordered : Ordered table) (arranged : Arranged table ending spots)
    (keys : ∀ entry ∈ table, IsKey entry.1 ∨ Unseen (shown asWritten ending spots) entry.1.toList)
    (entries : List (String × String)) (k : Nat) (suffix : ∀ m, entries[m]? = table[k + m]?) :
    (entries.zipIdx k).foldl
      (fun text ((reference, _), i) =>
        markMatches (referencePattern reference.toList) (markOf '\x00' i) none text)
      (shown (marked k) ending spots) = shown (marked (k + entries.length)) ending spots := by
  induction entries generalizing k with
  | nil => rfl
  | cons entry entries ih =>
    have here : table[k]? = some entry := by
      have first := suffix 0
      rw [Nat.add_zero, List.getElem?_cons_zero] at first
      exact first.symm
    have atIndex : table[k]?.map (·.1) = some entry.1 := by
      rw [here, Option.map_some]
    have pass : markMatches (referencePattern entry.1.toList) (markOf '\x00' k) none
        (shown (marked k) ending spots) = shown (marked (k + 1)) ending spots := by
      rcases keys entry (List.mem_of_getElem? here) with ⟨key, keyShaped, same⟩ | unseen
      · rw [same] at atIndex ⊢
        exact markMatches_shown ordered keyShaped atIndex arranged fun _ _ _ _ => rfl
      · rw [markMatches_missed (unseen.missed k), shown_unseen arranged atIndex unseen]
    have later : ∀ m, entries[m]? = table[k + 1 + m]? := by
      intro m
      have next := suffix (m + 1)
      rw [List.getElem?_cons_succ] at next
      rw [next]
      congr 1
      omega
    have rest := ih (k + 1) later
    rw [List.zipIdx_cons, List.foldl_cons]
    simp only [pass]
    rw [rest]
    congr 2
    rw [List.length_cons]
    omega

theorem marked_zero : marked 0 = asWritten := by
  funext i raw
  simp [marked, asWritten]

/-- All passes together put the marks of their keys in place of all references. -/
theorem foldl_asWritten (ordered : Ordered table) (arranged : Arranged table ending spots)
    (keys : ∀ entry ∈ table, IsKey entry.1 ∨ Unseen (shown asWritten ending spots) entry.1.toList) :
    table.zipIdx.foldl
      (fun text ((reference, _), i) =>
        markMatches (referencePattern reference.toList) (markOf '\x00' i) none text)
      (shown asWritten ending spots) = shown (marked table.length) ending spots := by
  have all := foldl_shown ordered arranged keys table 0 (fun m => by rw [Nat.zero_add])
  rw [marked_zero, Nat.zero_add] at all
  exact all

/-- Text without a control character has no marks to fill. -/
theorem fillMarks_plain {columns : List String} {chunk : List Char} (plain : control ∉ chunk)
    (rest : List Char) :
    fillMarks control columns (chunk ++ rest) = chunk ++ fillMarks control columns rest := by
  induction chunk with
  | nil => rfl
  | cons c chunk ih =>
    rw [List.mem_cons, not_or] at plain
    have other : (c = control) = False := eq_false fun same => plain.1 same.symm
    rw [List.cons_append, fillMarks]
    simp only [other, decide_false, Bool.false_and, Bool.false_eq_true, if_false, ih plain.2]
    rfl

theorem fillMarks_mark (other : control.isDigit = false) (columns : List String) (i : Nat)
    (rest : List Char) :
    fillMarks control columns (markOf control i ++ rest) =
      (columns[i]?.getD "").toList ++ fillMarks control columns rest := by
  have digits : ((toString i).toList ++ control :: rest).takeWhile Char.isDigit =
      (toString i).toList := by
    rw [List.takeWhile_append_of_pos fun c mem => isDigit_toString mem,
      List.takeWhile_cons_of_neg (by rw [other]; simp), List.append_nil]
  have value : Number.digitsValue 0 (toString i).toList = i := by
    rw [toList_toString]
    exact Number.digitsValue_toDigits i
  have layout : markOf control i ++ rest = control :: ((toString i).toList ++ control :: rest) := by
    simp [markOf]
  have after : ((toString i).toList ++ control :: rest).drop ((toString i).toList.length + 1) =
      rest := by
    rw [← List.drop_drop, List.drop_left]
    rfl
  rw [layout, fillMarks]
  simp only [digits, value, after, List.drop_left]
  rw [if_pos (by simp)]

/-- How references are shown in the end: as their columns. -/
def filled (columns : List String) (i : Nat) (_ : List Char) : List Char :=
  (columns[i]?.getD "").toList

/-- A character that stands in no text of a condition. -/
structure Foreign (c : Char) : Prop where
  solid : Text.isBlank c = false
  mark : c ∉ markChars
  digit : c.isDigit = false
  point : c ∉ ['.', 'e', 'E', '+', '-']
  name : continuesIdentifier c = false

theorem Foreign.notMem_gap (foreign : Foreign control) {gap : List Char} (blank : Blank gap) :
    control ∉ gap := by
  intro mem
  have solid := foreign.solid
  rw [blank control mem] at solid
  cases solid

theorem Foreign.notMem_name (foreign : Foreign control) {chars : List Char}
    (continues : ∀ c ∈ chars, continuesIdentifier c = true) : control ∉ chars := by
  intro mem
  have stops := foreign.name
  rw [continues control mem] at stops
  cases stops

theorem Foreign.notMem_slot (foreign : Foreign control) {slot : Slot} (proper : slot.Proper table)
    (other : slot.isReference = false) (display : Nat → List Char → List Char) :
    control ∉ slot.shown display := by
  cases slot with
  | mark kind chars => exact fun mem => foreign.mark (proper.2 control mem)
  | number chars =>
    intro mem
    rcases number_chars proper.whole control mem with digit | point
    · rw [foreign.digit] at digit
      cases digit
    · exact foreign.point point
  | word chars => exact foreign.notMem_name proper.1.continues
  | reference => cases other

theorem foreign_nul : Foreign '\x00' where
  solid := by decide
  mark := by decide
  digit := by decide
  point := by decide
  name := by
    rw [continuesIdentifier_ascii (by decide)]
    decide

theorem foreign_soh : Foreign '\x01' where
  solid := by decide
  mark := by decide
  digit := by decide
  point := by decide
  name := by
    rw [continuesIdentifier_ascii (by decide)]
    decide

/-- Filling puts the columns of the keys in place of the references. -/
theorem fillMarks_shown (arranged : Arranged table ending spots) :
    fillMarks '\x00' (table.map (·.2)) (shown (marked table.length) ending spots) =
      shown (filled (table.map (·.2))) ending spots := by
  induction spots with
  | nil =>
    have plain := foreign_nul.notMem_gap (show Blank ending from arranged)
    rw [shown, shown, ← List.append_nil ending, fillMarks_plain plain, fillMarks]
  | cons spot rest ih =>
    obtain ⟨fits, others⟩ := arranged
    obtain ⟨gap, slot⟩ := spot
    rw [shown, shown, fillMarks_plain (foreign_nul.notMem_gap fits.blank)]
    congr 1
    cases slot with
    | reference i operand raw =>
      obtain ⟨_, index, _⟩ := fits.proper
      obtain ⟨entry, found, _⟩ := Option.map_eq_some_iff.1 index
      obtain ⟨inside, _⟩ := List.getElem?_eq_some_iff.1 found
      rw [Slot.shown, Slot.shown, marked, if_pos inside, fillMarks_mark (by decide), ih others]
      rfl
    | _ =>
      rw [fillMarks_plain (foreign_nul.notMem_slot fits.proper rfl _), ih others]
      rfl

theorem notMem_shown (foreign : Foreign control) (arranged : Arranged table ending spots)
    {display : Nat → List Char → List Char} (clean : ∀ i raw, control ∉ display i raw) :
    control ∉ shown display ending spots := by
  induction spots with
  | nil => exact foreign.notMem_gap arranged
  | cons spot rest ih =>
    obtain ⟨fits, others⟩ := arranged
    rw [shown, List.mem_append, List.mem_append, not_or, not_or]
    refine ⟨foreign.notMem_gap fits.blank, ?_, ih others⟩
    cases slot : spot.slot with
    | reference i operand raw => exact clean i raw
    | _ => exact foreign.notMem_slot (slot ▸ fits.proper) rfl _

/-- A condition with the columns of its references in their place. -/
theorem substitute_shown {columns : Columns} (ordered : Ordered (longestFirst columns))
    {text : String}
    (keys : ∀ entry ∈ longestFirst columns, IsKey entry.1 ∨ Unseen text.toList entry.1.toList)
    (targets : ∀ entry ∈ longestFirst columns, ∀ c ∈ entry.2.toList, continuesIdentifier c = true)
    (arranged : Arranged (longestFirst columns) ending spots)
    (written : text.toList = shown asWritten ending spots) :
    (substitute columns text).toList =
      shown (filled ((longestFirst columns).map (·.2))) ending spots := by
  have clean : ∀ i raw, '\x01' ∉ filled ((longestFirst columns).map (·.2)) i raw := by
    intro i raw
    rw [filled]
    cases found : ((longestFirst columns).map (·.2))[i]? with
    | none => simp
    | some column =>
      obtain ⟨entry, mem, rfl⟩ := List.mem_map.1 (List.mem_of_getElem? found)
      exact foreign_soh.notMem_name (targets entry mem)
  rw [written] at keys
  rw [substitute, written, foldl_asWritten ordered arranged keys, fillMarks_shown arranged,
    String.toList_ofList]
  have plain := @fillMarks_plain _ [] _ (notMem_shown foreign_soh arranged clean) []
  rw [List.append_nil, fillMarks, List.append_nil] at plain
  exact plain

end TelemetryQuery.Having
