import Mathlib.Data.List.Infix
import TelemetryQuery.Filter.Contradiction
/- The pattern test of the contradictions is the one of the database for the patterns that it
understands: those with percent signs at their ends only. -/
namespace TelemetryQuery.Filter

/-- The patterns of the database: a percent sign stands for any text, an underscore for any one
character, and every other character for itself. -/
inductive Like : List Char → List Char → Prop
  | nil : Like [] []
  | any {pattern text : List Char} (skipped : List Char) : Like pattern text →
      Like ('%' :: pattern) (skipped ++ text)
  | one {pattern text : List Char} (c : Char) : Like pattern text →
      Like ('_' :: pattern) (c :: text)
  | char {pattern text : List Char} {c : Char} : c ≠ '%' → c ≠ '_' → Like pattern text →
      Like (c :: pattern) (c :: text)

/-- A pattern without underscores, and without percent signs between its first and its last
character. -/
def EndWildcards (pattern : List Char) : Prop :=
  '_' ∉ pattern ∧ '%' ∉ pattern.tail.dropLast

instance (pattern : List Char) : Decidable (EndWildcards pattern) :=
  inferInstanceAs (Decidable (_ ∧ _))

/-- Characters that all stand for themselves. -/
def NoWildcard (part : List Char) : Prop :=
  ∀ c ∈ part, c ≠ '%' ∧ c ≠ '_'

section Meaning

variable {pattern part text : List Char}

theorem like_nil : Like [] text ↔ text = [] := by
  constructor
  · rintro ⟨⟩
    rfl
  · rintro rfl
    exact .nil

theorem like_any : Like ('%' :: pattern) text ↔ ∃ rest, rest <:+ text ∧ Like pattern rest := by
  constructor
  · intro matched
    cases matched with
    | any skipped rest => exact ⟨_, List.suffix_append _ _, rest⟩
    | char other => exact absurd rfl other
  · rintro ⟨rest, ⟨skipped, rfl⟩, matched⟩
    exact .any skipped matched

/-- A part that stands for itself is taken off the text. -/
theorem like_append (plain : NoWildcard part) :
    Like (part ++ pattern) text ↔ ∃ rest, text = part ++ rest ∧ Like pattern rest := by
  induction part generalizing text with
  | nil => simp
  | cons c part ih =>
    obtain ⟨⟨noPercent, noUnderscore⟩, later⟩ := List.forall_mem_cons.1 plain
    constructor
    · intro matched
      cases matched with
      | any => exact absurd rfl noPercent
      | one => exact absurd rfl noUnderscore
      | char _ _ matched =>
        obtain ⟨rest, rfl, last⟩ := (ih later).1 matched
        exact ⟨rest, rfl, last⟩
    · rintro ⟨rest, rfl, last⟩
      exact .char noPercent noUnderscore ((ih later).2 ⟨rest, rfl, last⟩)

theorem like_plain (plain : NoWildcard part) : Like part text ↔ part = text := by
  rw [← List.append_nil part, like_append plain]
  simp [like_nil, eq_comm]

theorem like_percent : Like ['%'] text :=
  like_any.2 ⟨[], List.nil_suffix, .nil⟩

theorem like_ending (plain : NoWildcard part) : Like ('%' :: part) text ↔ part <:+ text := by
  simp [like_any, like_plain plain]

theorem like_beginning (plain : NoWildcard part) : Like (part ++ ['%']) text ↔ part <+: text := by
  simp [like_append plain, like_percent, List.IsPrefix, eq_comm]

theorem like_inside (plain : NoWildcard part) :
    Like ('%' :: (part ++ ['%'])) text ↔ part <:+: text := by
  simp only [like_any, like_beginning plain]
  constructor
  · rintro ⟨rest, suffix, start⟩
    exact start.isInfix.trans suffix.isInfix
  · rintro ⟨before, after, rfl⟩
    exact ⟨part ++ after, ⟨before, by simp⟩, List.prefix_append _ _⟩

end Meaning

theorem occursIn_iff {part text : List Char} : Text.occursIn part text = true ↔ part <:+: text := by
  induction text with
  | nil => simp [Text.occursIn]
  | cons c text ih => simp [Text.occursIn, ih, List.infix_cons_iff]

/-- The five forms of a pattern for the test, each with what is tested of a text. -/
inductive Tests : List Char → (List Char → Bool) → Prop
  | any : Tests ['%'] fun _ => true
  | inside (part : List Char) : Tests ('%' :: (part ++ ['%'])) (Text.occursIn part)
  | ending {part : List Char} : part ≠ [] → part.getLast? ≠ some '%' →
      Tests ('%' :: part) part.isSuffixOf
  | beginning {part : List Char} : part ≠ [] → part.head? ≠ some '%' →
      Tests (part ++ ['%']) part.isPrefixOf
  | whole {part : List Char} : part.head? ≠ some '%' → part.getLast? ≠ some '%' →
      Tests part (part == ·)

theorem tests_matchesLike (text pattern : String) :
    ∃ test, Tests pattern.toList test ∧ matchesLike text pattern = test text.toList := by
  unfold matchesLike
  dsimp only
  split
  · next rest chars =>
    rw [chars]
    split
    · next empty =>
      obtain rfl := List.getLast?_eq_none_iff.1 empty
      exact ⟨_, .any, rfl⟩
    · next percent =>
      obtain ⟨part, rfl⟩ := List.getLast?_eq_some_iff.1 percent
      exact ⟨_, .inside part, by rw [List.dropLast_concat]⟩
    · next c other last =>
      refine ⟨_, .ending ?_ ?_, rfl⟩
      · rintro rfl
        cases last
      · rw [last]
        exact fun same => other (Option.some.inj same)
  · next noPercent =>
    have first : pattern.toList.head? ≠ some '%' := by
      intro percent
      obtain ⟨rest, chars⟩ := List.head?_eq_some_iff.1 percent
      exact noPercent rest chars
    split
    · next percent =>
      obtain ⟨part, chars⟩ := List.getLast?_eq_some_iff.1 percent
      rw [chars] at first ⊢
      have nonempty : part ≠ [] := by
        rintro rfl
        exact first rfl
      refine ⟨_, .beginning nonempty ?_, by rw [List.dropLast_concat]⟩
      rwa [List.head?_append_of_ne_nil _ nonempty] at first
    · next last => exact ⟨_, .whole first last, rfl⟩

theorem noWildcard_of_not_mem {part : List Char} (noUnderscore : '_' ∉ part)
    (noPercent : '%' ∉ part) : NoWildcard part := by
  intro c mem
  exact ⟨fun same => noPercent (same ▸ mem), fun same => noUnderscore (same ▸ mem)⟩

/-- A percent sign that is not the last character stands before it. -/
theorem not_mem_of_dropLast {part : List Char} (inner : '%' ∉ part.dropLast)
    (last : part.getLast? ≠ some '%') : '%' ∉ part := by
  rcases List.eq_nil_or_concat part with rfl | ⟨start, c, rfl⟩
  · exact List.not_mem_nil
  · simp_all [eq_comm]

/-- What is tested is what the pattern means, if percent signs stand at its ends only. -/
theorem Tests.iff_like {pattern : List Char} {test : List Char → Bool} (tests : Tests pattern test)
    (ends : EndWildcards pattern) (text : List Char) : test text = true ↔ Like pattern text := by
  obtain ⟨noUnderscore, noPercent⟩ := ends
  cases tests with
  | any => simp [like_percent]
  | inside part =>
    have plain : NoWildcard part := by
      refine noWildcard_of_not_mem ?_ ?_
      · simp_all
      · simpa using noPercent
    rw [like_inside plain, occursIn_iff]
  | @ending part _ last =>
    have plain : NoWildcard part := by
      refine noWildcard_of_not_mem ?_ (not_mem_of_dropLast noPercent last)
      simp_all
    rw [like_ending plain, List.isSuffixOf_iff_suffix]
  | @beginning part nonempty first =>
    have plain : NoWildcard part := by
      obtain ⟨c, rest, rfl⟩ := List.exists_cons_of_ne_nil nonempty
      refine noWildcard_of_not_mem ?_ ?_
      · simp_all
      · simp_all [eq_comm]
    rw [like_beginning plain, List.isPrefixOf_iff_prefix]
  | whole first last =>
    have plain : NoWildcard pattern := by
      refine noWildcard_of_not_mem noUnderscore ?_
      cases pattern with
      | nil => exact List.not_mem_nil
      | cons c rest =>
        have later : rest.getLast? ≠ some '%' := by
          cases rest <;> simp_all
        have others := not_mem_of_dropLast noPercent later
        simp_all [eq_comm]
    rw [like_plain plain, beq_iff_eq]

def byteSize : List Char → Nat
  | [] => 0
  | c :: text => c.utf8Size + byteSize text

theorem byteSize_append (part rest : List Char) :
    byteSize (part ++ rest) = byteSize part + byteSize rest := by
  induction part with
  | nil => rw [List.nil_append, byteSize, Nat.zero_add]
  | cons c part ih => rw [List.cons_append, byteSize, byteSize, ih, Nat.add_assoc]

/-- The start of a text that takes so many bytes; none if the text is shorter, or if the bytes end
within a character. -/
def takeBytes? : List Char → Nat → Option (List Char)
  | _, 0 => some []
  | [], _ => none
  | c :: text, bytes =>
    if c.utf8Size ≤ bytes then (takeBytes? text (bytes - c.utf8Size)).map (c :: ·) else none

/-- The pattern test by sizes in bytes. What stands between two percent signs is what follows the
first one without its last byte; there is no answer if there is no such byte, or if it cannot be cut
off. -/
def matchesLikeBytes? (text pattern : String) : Option Bool :=
  let chars := text.toList
  let whole := pattern.toList
  if pattern = "%" then some true
  else if whole.head? = some '%' then
    if whole.getLast? = some '%' then
      let rest := whole.tail
      if byteSize rest = 0 then none
      else (takeBytes? rest (byteSize rest - 1)).map (Text.occursIn · chars)
    else some (whole.tail.isSuffixOf chars)
  else if whole.getLast? = some '%' then some (whole.dropLast.isPrefixOf chars)
  else some (whole == chars)

theorem takeBytes?_append (part rest : List Char) :
    takeBytes? (part ++ rest) (byteSize part) = some part := by
  induction part with
  | nil => cases rest <;> rfl
  | cons c part ih =>
    have positive := c.utf8Size_pos
    rw [byteSize, List.cons_append, takeBytes?, if_pos (by omega), Nat.add_sub_cancel_left, ih]
    · rfl
    · omega

/-- The part between two percent signs can always be cut out by its size. -/
theorem matchesLikeBytes?_eq (text pattern : String) :
    matchesLikeBytes? text pattern = some (matchesLike text pattern) := by
  obtain ⟨test, tests, same⟩ := tests_matchesLike text pattern
  have single : pattern = "%" ↔ pattern.toList = ['%'] := by
    rw [← String.toList_inj]
    rfl
  rw [same, matchesLikeBytes?]
  simp only [single]
  generalize pattern.toList = whole at tests
  cases tests with
  | any => rfl
  | inside part =>
    have size : byteSize (part ++ ['%']) = byteSize part + 1 := byteSize_append part ['%']
    have last : ('%' :: (part ++ ['%'])).getLast? = some '%' :=
      List.getLast?_concat (l := '%' :: part)
    rw [if_neg (by simp), if_pos List.head?_cons, if_pos last, List.tail_cons, size,
      if_neg (by omega), Nat.add_sub_cancel, takeBytes?_append]
    rfl
  | @ending part nonempty last =>
    obtain ⟨c, rest, rfl⟩ := List.exists_cons_of_ne_nil nonempty
    rw [if_neg (by simp), if_pos List.head?_cons, if_neg (by rwa [List.getLast?_cons_cons])]
    rfl
  | @beginning part nonempty first =>
    have head : (part ++ ['%']).head? ≠ some '%' := by rwa [List.head?_append_of_ne_nil _ nonempty]
    rw [if_neg (by simp [nonempty]), if_neg head, if_pos List.getLast?_concat, List.dropLast_concat]
  | whole first last =>
    have several : whole ≠ ['%'] := by
      rintro rfl
      exact first rfl
    rw [if_neg several, if_neg first, if_neg last]

/-- The pattern test never cuts outside of a pattern, and for a pattern with percent signs at its
ends only it tells whether the text matches the pattern. -/
theorem matchesLike_like (text pattern : String) :
    matchesLikeBytes? text pattern = some (matchesLike text pattern) ∧
      (EndWildcards pattern.toList →
        (matchesLike text pattern = true ↔ Like pattern.toList text.toList)) := by
  obtain ⟨test, tests, same⟩ := tests_matchesLike text pattern
  refine ⟨matchesLikeBytes?_eq text pattern, fun ends => ?_⟩
  rw [same]
  exact tests.iff_like ends text.toList

theorem matchesLike_like_inside :
    EndWildcards "%cache%".toList ∧ Like "%cache%".toList "redis-cache-01".toList := by
  have ends : EndWildcards "%cache%".toList := by decide
  exact ⟨ends, ((matchesLike_like "redis-cache-01" "%cache%").2 ends).1 (by decide)⟩

end TelemetryQuery.Filter
