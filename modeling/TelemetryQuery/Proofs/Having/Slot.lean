import Mathlib.Data.List.Infix
import TelemetryQuery.Proofs.Having.Overlap
import TelemetryQuery.Proofs.Number.Display
/- Conditions as slots, and the passes that put marks into the slots of references. -/
namespace TelemetryQuery.Having

/-- A part of a condition between two gaps. -/
inductive Slot where
  | mark (kind : Kind) (chars : List Char)
  | number (chars : List Char)
  /-- A word that is no key: a reserved word or a column. -/
  | word (chars : List Char)
  /-- A reference with the position of its key, and as it is written. -/
  | reference (i : Nat) (operand : Operand) (raw : List Char)

/-- A slot with the gap before it. -/
structure Spot where
  gap : List Char
  slot : Slot

def Slot.isReference : Slot → Bool
  | reference .. => true
  | _ => false

def Slot.isNumber : Slot → Bool
  | number _ => true
  | _ => false

/-- The text of a slot, given how references are shown. -/
def Slot.shown (display : Nat → List Char → List Char) : Slot → List Char
  | mark _ chars => chars
  | number chars => chars
  | word chars => chars
  | reference i _ raw => display i raw

/-- The text of some spots and of what ends them. -/
def shown (display : Nat → List Char → List Char) (ending : List Char) : List Spot → List Char
  | [] => ending
  | spot :: rest => spot.gap ++ (spot.slot.shown display ++ shown display ending rest)

/-- References as they are written. -/
def asWritten (_ : Nat) (raw : List Char) : List Char :=
  raw

/-- References after some passes: those of the first keys are marked. -/
def marked (passes i : Nat) (raw : List Char) : List Char :=
  if i < passes then markOf '\x00' i else raw

/-- No letter that a key starts with follows the point of a number. -/
def Clear (number : List Char) (key : String) : Prop :=
  ∀ c ∈ key.toList.head?, startsIdentifier c = true → ¬['.', c] <:+: number

theorem clear_iff {number : List Char} {key : String} :
    Clear number key ↔
      key.toList.head?.all (fun c => !startsIdentifier c || !decide (['.', c] <:+: number)) := by
  rw [Clear]
  cases key.toList.head? with
  | none => simp
  | some c => cases starts : startsIdentifier c <;> simp [starts]

instance (number : List Char) (key : String) : Decidable (Clear number key) :=
  decidable_of_iff' _ clear_iff

/-- A number in which no keys are found. -/
structure PlainNumber (table : List (String × String)) (chars : List Char) : Prop where
  whole : numberLength chars = chars.length
  starts : startsNumber chars = true
  clear : ∀ entry ∈ table, Clear chars entry.1

/-- What a slot holds, by the keys of a table. -/
def Slot.Proper (table : List (String × String)) : Slot → Prop
  | mark _ chars => chars ≠ [] ∧ ∀ c ∈ chars, c ∈ markChars
  | number chars => PlainNumber table chars
  | word chars => NameChars chars ∧ (∀ c ∈ chars, Text.isWord c = true) ∧
      ∀ entry ∈ table, entry.1.toList ≠ chars
  | reference i operand raw => operand.isShaped = true ∧
      (table[i]?.map (·.1) = some operand.render) ∧ Written operand raw

/-- Whether text after a slot leaves its words as they are. -/
def Slot.Stops (rest : List Char) : Slot → Prop
  | mark .. => True
  | number _ => True
  | word chars =>
    Edge rest ∧ (Kind.ofWord (String.ofList chars) = .identifier → Unopened rest)
  | reference _ operand _ => ∀ name, operand = .identifier name → Edge rest ∧ Unopened rest

/-- Whether text after a slot leaves its marks and numbers as they are. -/
def Slot.Cut (rest : List Char) : Slot → Prop
  | mark kind chars => MarkChars kind chars rest
  | number _ => EndsNumber rest
  | _ => True

/-- A slot before others of a condition. -/
structure Spot.Fits (table : List (String × String)) (ending : List Char) (spot : Spot)
    (rest : List Spot) : Prop where
  blank : Blank spot.gap
  proper : spot.slot.Proper table
  stops : spot.slot.Stops (shown asWritten ending rest)
  cut : spot.slot.Cut (shown asWritten ending rest)
  number : spot.slot.isNumber = true → ∀ next ∈ rest.head?, next.slot.isReference = false

/-- Spots of a condition, whose references are keys of a table. -/
def Arranged (table : List (String × String)) (ending : List Char) : List Spot → Prop
  | [] => Blank ending
  | spot :: rest => spot.Fits table ending rest ∧ Arranged table ending rest

variable {c : Char} {spots : List Spot} {i : Nat} {slot : Slot}
  {table : List (String × String)} {ending : List Char}

/-- A letter in a number is the mark of its exponent. -/
theorem number_letter {digits fraction exponent start more : List Char}
    (parts : NumberParts digits fraction exponent) (letter : startsIdentifier c = true)
    (split : digits ++ fraction ++ exponent = start ++ c :: more) :
    start = digits ++ fraction ∧ (c = 'e' ∨ c = 'E') := by
  have noDigit : ¬c.isDigit = true := by
    intro digit
    rw [startsIdentifier_digit digit] at letter
    cases letter
  have noPoint : c ≠ '.' := by
    rintro rfl
    rw [startsIdentifier_ascii (by decide)] at letter
    revert letter
    decide
  have noMark : ¬c ∈ markChars := by
    intro mark
    rw [startsIdentifier_mark mark] at letter
    cases letter
  have notBefore : c ∉ digits ++ fraction := by
    rw [List.mem_append]
    rintro (mem | mem)
    · exact noDigit (parts.whole c mem)
    · rcases parts.fraction with rfl | ⟨others, rfl, all⟩
      · cases mem
      · rcases List.mem_cons.1 mem with rfl | mem
        · exact noPoint rfl
        · exact noDigit (all c mem)
  rcases List.append_eq_append_iff.1 split with ⟨inner, same, tail⟩ | ⟨inner, same, tail⟩
  · rcases parts.exponent with rfl | ⟨mark, sign, others, rfl, isMark, isSign, all⟩
    · simp at tail
    · cases inner with
      | nil =>
        obtain ⟨rfl, _⟩ := List.cons.inj tail
        exact ⟨by rw [same, List.append_nil], isMark⟩
      | cons d inner =>
        -- after its mark an exponent has a sign and digits only
        have mem : c ∈ sign ++ others := by
          rw [(List.cons.inj tail).2]
          simp
        rcases List.mem_append.1 mem with mem | mem
        · refine absurd ?_ noMark
          rcases isSign with rfl | rfl | rfl <;> simp at mem <;> subst mem <;> decide
        · exact absurd (all c mem) noDigit
  · cases inner with
    | nil =>
      rw [List.append_nil] at same
      rcases parts.exponent with rfl | ⟨mark, sign, others, rfl, isMark, _⟩
      · simp at tail
      · obtain ⟨rfl, _⟩ := List.cons.inj tail
        exact ⟨same.symm, isMark⟩
    | cons d inner =>
      obtain ⟨rfl, _⟩ := List.cons.inj tail
      exact absurd (by rw [same]; simp) notBefore

/-- An exponent follows a digit in a number where it does not follow the point. -/
theorem PlainNumber.wordless {chars start more : List Char} (number : PlainNumber table chars)
    (split : chars = start ++ c :: more) (letter : startsIdentifier c = true)
    (pointless : ¬['.', c] <:+: chars) (before : Option Char) :
    (start.getLast?.or before).any Text.isWord = true := by
  obtain ⟨digits, fraction, exponent, rfl, parts⟩ := number_parts number.whole
  rw [← List.append_assoc] at split
  obtain ⟨rfl, mark⟩ := number_letter parts letter split
  have nonempty : digits ++ fraction ≠ [] := by
    intro empty
    have starts := head_of_startsNumber number.starts
    rw [← List.append_assoc, split, empty] at starts
    rcases mark with rfl | rfl <;> revert starts <;> simp
  obtain ⟨first, last, ends⟩ : ∃ first last, digits ++ fraction = first ++ [last] :=
    ⟨_, _, (List.dropLast_append_getLast nonempty).symm⟩
  have noPoint : last ≠ '.' := by
    rintro rfl
    refine pointless ⟨first, more, ?_⟩
    rw [← List.append_assoc digits, split, ends]
    simp
  have digit : last.isDigit = true := by
    have mem : last ∈ digits ++ fraction := by rw [ends]; simp
    rcases List.mem_append.1 mem with mem | mem
    · exact parts.whole last mem
    · rcases parts.fraction with rfl | ⟨others, rfl, all⟩
      · cases mem
      · rcases List.mem_cons.1 mem with point | mem
        · exact absurd point noPoint
        · exact all last mem
  rw [ends, List.getLast?_concat, Option.some_or, Option.any_some,
    Text.isWord_ascii (ascii_of_isDigit digit), digit]
  simp

/-- Keys in the order in which they are looked for. -/
structure Ordered (table : List (String × String)) : Prop where
  distinct : ∀ {i j : Nat} {key : String}, table[i]?.map (·.1) = some key →
    table[j]?.map (·.1) = some key → i = j
  descending : ∀ {i j : Nat} {a b : String}, i ≤ j → table[i]?.map (·.1) = some a →
    table[j]?.map (·.1) = some b → b.utf8ByteSize ≤ a.utf8ByteSize

theorem toList_toString (i : Nat) : (toString i).toList = Nat.toDigits 10 i :=
  Nat.toList_repr

theorem isDigit_toString (mem : c ∈ (toString i).toList) : c.isDigit = true := by
  rw [toList_toString] at mem
  exact Nat.isDigit_of_mem_toDigits (by decide) (by decide) mem

theorem startsIdentifier_markOf (mem : c ∈ markOf '\x00' i) : startsIdentifier c = false := by
  rw [markOf, List.mem_append, List.mem_cons, List.mem_singleton] at mem
  have control : startsIdentifier '\x00' = false := by
    rw [startsIdentifier_ascii (by decide)]
    decide
  rcases mem with (rfl | mem) | rfl
  · exact control
  · exact startsIdentifier_digit (isDigit_toString mem)
  · exact control

/-- In a pass the pattern of a key is not found in slots other than those of the key. -/
theorem Slot.inert {key : Operand} {before : Option Char} {rest : List Char}
    (ordered : Ordered table) (keyShaped : key.isShaped = true)
    (atIndex : table[i]?.map (·.1) = some key.render) (proper : slot.Proper table)
    (stops : slot.Stops rest)
    (elsewhere : ∀ j operand raw, slot = .reference j operand raw → j ≠ i) :
    Inert key before (slot.shown (marked i)) rest := by
  cases slot with
  | mark kind chars =>
    exact inert_of_no_letter keyShaped fun c mem => startsIdentifier_mark (proper.2 c mem)
  | number chars =>
    obtain ⟨entry, found, same⟩ := Option.map_eq_some_iff.1 atIndex
    have clear := proper.clear entry (List.mem_of_getElem? found)
    rw [same] at clear
    exact inert_of_wordless keyShaped fun start c more split letter head =>
      proper.wordless split letter (clear c head letter) before
  | word chars =>
    obtain ⟨entry, found, same⟩ := Option.map_eq_some_iff.1 atIndex
    have other := proper.2.2 entry (List.mem_of_getElem? found)
    rw [same] at other
    exact inert_word keyShaped proper.2.1 stops.1 other stops.2
  | reference j operand raw =>
    obtain ⟨shaped, index, written⟩ := proper
    rw [Slot.shown, marked]
    split
    · exact inert_of_no_letter keyShaped fun c mem => startsIdentifier_markOf mem
    · next later =>
      have different : key ≠ operand := by
        rintro rfl
        exact elsewhere j key raw rfl (ordered.distinct index atIndex)
      have size := ordered.descending (Nat.le_of_not_lt later) atIndex index
      rw [key.oneByte_render keyShaped, operand.oneByte_render shaped] at size
      cases operand with
      | identifier name =>
        cases written
        obtain ⟨edge, unopened⟩ := stops name rfl
        refine inert_name keyShaped (isName_chars shaped).continues edge unopened ?_ size
        intro same
        have renders : key.render = (Operand.identifier name).render := String.toList_inj.1 same
        rw [renders] at atIndex
        exact elsewhere j _ _ rfl (ordered.distinct index atIndex)
      | call callee arguments =>
        cases key with
        | identifier name => exact inert_call_of_name keyShaped shaped written size
        | call name operands => exact inert_call_of_call keyShaped shaped written different size
        | _ => cases keyShaped
      | _ => cases shaped

/-- A way to show references that starts with no blank and no bracket. -/
def Shows (display : Nat → List Char → List Char) : Prop :=
  ∀ i c more, startsIdentifier c = true →
    ∃ d others, display i (c :: more) = d :: others ∧ Text.isBlank d = false ∧ d ≠ '('

theorem not_blank_of_starts (starts : startsIdentifier c = true) : Text.isBlank c = false := by
  cases blank : Text.isBlank c with
  | false => rfl
  | true =>
    have stops := continuesIdentifier_blank blank
    rw [continues_of_starts starts] at stops
    cases stops

theorem not_edge_of_starts (starts : startsIdentifier c = true) : ¬isEdge c = true := by
  intro edge
  have stops := (isEdge_cases edge).1
  rw [continues_of_starts starts] at stops
  cases stops

theorem shows_marked (passes : Nat) : Shows (marked passes) := by
  intro i c more starts
  rw [marked]
  split
  · exact ⟨'\x00', _, rfl, by decide, by decide⟩
  · refine ⟨c, more, rfl, not_blank_of_starts starts, ?_⟩
    rintro rfl
    rw [startsIdentifier_mark (by decide)] at starts
    cases starts

/-- The first character of a slot that is no reference, which is not a blank. -/
theorem Slot.Proper.cons (proper : slot.Proper table) (other : slot.isReference = false)
    (display : Nat → List Char → List Char) :
    ∃ c more, slot.shown display = c :: more ∧ slot.shown asWritten = c :: more ∧
      Text.isBlank c = false := by
  cases slot with
  | mark kind chars =>
    obtain ⟨c, more, rfl⟩ := List.exists_cons_of_ne_nil proper.1
    have all : markChars.all (!Text.isBlank ·) = true := by decide
    refine ⟨c, more, rfl, rfl, ?_⟩
    simpa using mark_all all (proper.2 c List.mem_cons_self)
  | number chars =>
    cases chars with
    | nil => exact absurd proper.starts (by simp [startsNumber])
    | cons c more => exact ⟨c, more, rfl, rfl, solid_of_number proper.whole c List.mem_cons_self⟩
  | word chars =>
    obtain ⟨c, more, rfl, starts⟩ := proper.1.cons
    exact ⟨c, more, rfl, rfl, not_blank_of_starts starts⟩
  | reference => cases other

theorem Slot.Proper.starts (proper : slot.Proper table) (reference : slot.isReference = true) :
    ∃ c more, slot.shown asWritten = c :: more ∧ startsIdentifier c = true := by
  cases slot with
  | reference i operand raw => exact proper.2.2.starts proper.1
  | _ => cases reference

/-- However references are shown, text starts the same, unless it starts with a reference. -/
theorem head_shown (arranged : Arranged table ending spots)
    (display : Nat → List Char → List Char) :
    (shown display ending spots).head? = (shown asWritten ending spots).head? ∨
      ∃ c, (shown asWritten ending spots).head? = some c ∧ startsIdentifier c = true ∧
        ∃ spot ∈ spots.head?, spot.gap = [] ∧ spot.slot.isReference = true := by
  cases spots with
  | nil => exact .inl rfl
  | cons spot rest =>
    obtain ⟨gap, slot⟩ := spot
    cases gap with
    | cons c gap => exact .inl rfl
    | nil =>
      have proper : slot.Proper table := arranged.1.proper
      cases reference : slot.isReference with
      | false =>
        obtain ⟨c, more, first, second, _⟩ := proper.cons reference display
        refine .inl ?_
        simp only [shown, first, second]
        rfl
      | true =>
        obtain ⟨c, more, written, starts⟩ := proper.starts reference
        refine .inr ⟨c, ?_, starts, _, rfl, rfl, reference⟩
        simp only [shown, written]
        rfl

theorem edge_shown (arranged : Arranged table ending spots)
    (edge : Edge (shown asWritten ending spots)) (display : Nat → List Char → List Char) :
    Edge (shown display ending spots) := by
  rcases head_shown arranged display with same | ⟨c, head, starts, _⟩
  · rw [Edge, same]
    exact edge
  · exact absurd (edge c head) (not_edge_of_starts starts)

/-- No reference follows directly where text is at the edge of a word. -/
theorem not_reference_of_edge {spot : Spot} (arranged : Arranged table ending spots)
    (edge : Edge (shown asWritten ending spots)) (next : spot ∈ spots.head?)
    (direct : spot.gap = []) : spot.slot.isReference = false := by
  cases reference : spot.slot.isReference with
  | false => rfl
  | true =>
    cases spots with
    | nil => cases next
    | cons first rest =>
      obtain rfl := Option.some.inj next
      obtain ⟨c, more, written, starts⟩ := arranged.1.proper.starts reference
      refine absurd (edge c ?_) (not_edge_of_starts starts)
      rw [shown, direct, written]
      rfl

theorem unopened_shown (arranged : Arranged table ending spots)
    {display : Nat → List Char → List Char} (shows : Shows display)
    (unopened : Unopened (shown asWritten ending spots)) :
    Unopened (shown display ending spots) := by
  cases spots with
  | nil => exact unopened
  | cons spot rest =>
    have proper : spot.slot.Proper table := arranged.1.proper
    have skip : ∀ {c : Char} (text : List Char), Text.isBlank c = false →
        ((spot.gap ++ c :: text).dropWhile Text.isBlank).head? = some c := by
      intro c text solid
      rw [List.dropWhile_append_of_pos arranged.1.blank,
        List.dropWhile_cons_of_neg (by rw [solid]; simp)]
      rfl
    cases reference : spot.slot.isReference with
    | false =>
      obtain ⟨c, more, first, second, solid⟩ := proper.cons reference display
      rw [Unopened, shown, second, List.cons_append, skip _ solid] at unopened
      rw [Unopened, shown, first, List.cons_append, skip _ solid]
      exact unopened
    | true =>
      obtain ⟨c, more, written, starts⟩ := proper.starts reference
      cases slot : spot.slot with
      | reference i operand raw =>
        rw [slot] at written
        obtain ⟨d, others, display, solid, other⟩ := shows i c more starts
        have same : raw = c :: more := written
        rw [Unopened, shown, slot, Slot.shown, same, display, List.cons_append, skip _ solid]
        simpa using other
      | _ =>
        rw [slot] at reference
        cases reference

end TelemetryQuery.Having
