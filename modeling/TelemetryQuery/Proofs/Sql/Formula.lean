import Mathlib.Data.List.Forall2
import TelemetryQuery.Sql.Fragment
/- Conditions joined in SQL, read as Boolean formulas: `NOT` binds before `AND`, and `AND` before
`OR`. -/
namespace TelemetryQuery.Sql

/-- Which conditions hold; conditions with the same text but other values are others. -/
abbrev Assignment :=
  Fragment → Bool

inductive Formula where
  | always
  | condition (fragment : Fragment)
  | not (inner : Formula)
  | and (left right : Formula)
  | or (left right : Formula)
deriving Repr

def Formula.eval (assignment : Assignment) : Formula → Bool
  | always => true
  | condition fragment => assignment fragment
  | not inner => !inner.eval assignment
  | and left right => left.eval assignment && right.eval assignment
  | or left right => left.eval assignment || right.eval assignment

/-- A clause is written in words: brackets, connectives, and conditions taken as they are. -/
inductive Word where
  | opening
  | closing
  | not
  | and
  | or
  | always
  | condition (fragment : Fragment)
deriving Repr

namespace Word

def fragment : Word → Fragment
  | opening => .ofText "("
  | closing => .ofText ")"
  | not => .ofText "NOT "
  | and => .ofText " AND "
  | or => .ofText " OR "
  | always => .ofText "true"
  | condition fragment => fragment

/-- The SQL that some words make, one after the other. -/
def concat (words : List Word) : Fragment :=
  words.flatMap fragment

def joinWith (connective : Word) : List (List Word) → List Word
  | [] => []
  | [words] => words
  | words :: rest => words ++ connective :: joinWith connective rest

theorem joinWith_cons_cons (connective : Word) (first second : List Word)
    (rest : List (List Word)) :
    joinWith connective (first :: second :: rest) =
      first ++ connective :: joinWith connective (second :: rest) :=
  rfl

/-- Joins by a connective, in brackets if there is more than one part. -/
def connect (connective : Word) : List (List Word) → List Word
  | [] => []
  | [words] => words
  | parts => opening :: joinWith connective parts ++ [closing]

end Word

variable {truth : Assignment → Bool} {formula left right : Formula} {rest words after : List Word}

theorem Fragment.sql_append (first second : Fragment) :
    sql (first ++ second) = sql first ++ sql second := by
  apply String.toList_injective
  simp [sql, String.toList_join]

/-- Words that make the SQL of a fragment, with the same values bound in it. -/
structure Word.Spell (words : List Word) (fragment : Fragment) : Prop where
  sql : (concat words).sql = fragment.sql
  arguments : (concat words).arguments = fragment.arguments

namespace Word.Spell

theorem refl (words : List Word) : Spell words (concat words) :=
  ⟨rfl, rfl⟩

theorem condition (fragment : Fragment) : Spell [.condition fragment] fragment := by
  constructor <;> simp [concat, Word.fragment]

theorem append {first second : List Word} {a b : Fragment} (spellFirst : Spell first a)
    (spellSecond : Spell second b) : Spell (first ++ second) (a ++ b) := by
  constructor
  · rw [concat, List.flatMap_append, Fragment.sql_append, Fragment.sql_append, ← concat, ← concat,
      spellFirst.sql, spellSecond.sql]
  · rw [concat, List.flatMap_append, Fragment.arguments, List.filterMap_append]
    exact (congrArg₂ _ spellFirst.arguments spellSecond.arguments).trans
      List.filterMap_append.symm

theorem enclose {fragment : Fragment} (spell : Spell words fragment) :
    Spell (.opening :: words ++ [.closing]) (.text "(" :: fragment ++ [.text ")"]) :=
  ((refl [.opening]).append spell).append (refl [.closing])

theorem negate {fragment : Fragment} (spell : Spell words fragment) :
    Spell (.not :: .opening :: words ++ [.closing]) (.text "NOT (" :: fragment ++ [.text ")"]) := by
  have start : Spell [.not, .opening] [.text "NOT ("] := ⟨by decide, rfl⟩
  exact (start.append spell).append (refl [.closing])

variable {connective : Word} {name : String} {parts : List (List Word)}
  {fragments : List Fragment}

theorem joinWith (named : connective.fragment = .ofText (" " ++ name ++ " "))
    (each : List.Forall₂ Spell parts fragments) :
    Spell (connective.joinWith parts) (.joinWith (" " ++ name ++ " ") fragments) := by
  induction each with
  | nil => exact refl []
  | @cons words fragment parts fragments spell more ih =>
    cases more with
    | nil => exact spell
    | cons next more =>
      have between : Spell [connective] [.text (" " ++ name ++ " ")] := by
        constructor <;> simp [concat, named, Fragment.ofText]
      exact spell.append (between.append ih)

theorem connect (named : connective.fragment = .ofText (" " ++ name ++ " "))
    (each : List.Forall₂ Spell parts fragments) :
    Spell (connective.connect parts) (.connect name fragments) := by
  match each with
  | .nil => exact refl []
  | .cons spell .nil => exact spell
  | .cons first (.cons second more) =>
    exact (joinWith named (.cons first (.cons second more))).enclose

end Word.Spell

/-- A formula at the front of some words, of which it takes one at least. -/
structure Reading (words : List Word) where
  formula : Formula
  rest : List Word
  lt : rest.length < words.length

mutual

def readOr (words : List Word) : Option (Reading words) :=
  match readAnd words with
  | none => none
  | some ⟨left, .or :: after, lt⟩ =>
    match readOr after with
    | none => none
    | some ⟨right, rest, restLt⟩ =>
      some ⟨.or left right, rest, Nat.lt_trans restLt (Nat.lt_of_succ_lt lt)⟩
  | some found => some found
termination_by 3 * words.length + 2
decreasing_by all_goals grind

def readAnd (words : List Word) : Option (Reading words) :=
  match readPart words with
  | none => none
  | some ⟨left, .and :: after, lt⟩ =>
    match readAnd after with
    | none => none
    | some ⟨right, rest, restLt⟩ =>
      some ⟨.and left right, rest, Nat.lt_trans restLt (Nat.lt_of_succ_lt lt)⟩
  | some found => some found
termination_by 3 * words.length + 1
decreasing_by all_goals grind

/-- Reads a condition, a negation, or a formula in brackets. -/
def readPart (words : List Word) : Option (Reading words) :=
  match words with
  | .always :: after => some ⟨.always, after, Nat.lt_succ_self _⟩
  | .condition fragment :: after => some ⟨.condition fragment, after, Nat.lt_succ_self _⟩
  | .not :: after =>
    match readPart after with
    | none => none
    | some ⟨inner, rest, lt⟩ => some ⟨.not inner, rest, Nat.lt_succ_of_lt lt⟩
  | .opening :: after =>
    match readOr after with
    | some ⟨inner, .closing :: rest, lt⟩ =>
      some ⟨inner, rest, Nat.lt_succ_of_lt (Nat.lt_of_succ_lt lt)⟩
    | _ => none
  | _ => none
termination_by 3 * words.length
decreasing_by all_goals grind

end

/-- The formula that some words spell from the first to the last. -/
def Formula.read (words : List Word) : Option Formula :=
  match readOr words with
  | some ⟨formula, [], _⟩ => some formula
  | _ => none

/-- Words that are read as one part wherever they stand, and what the part says. -/
def Stands (words : List Word) (truth : Assignment → Bool) : Prop :=
  ∃ formula, (∀ rest, ∃ lt, readPart (words ++ rest) = some ⟨formula, rest, lt⟩) ∧
    ∀ assignment, formula.eval assignment = truth assignment

theorem readAnd_part {lt : rest.length < words.length}
    (part : readPart words = some ⟨formula, rest, lt⟩) (ends : rest.head? ≠ some .and) :
    readAnd words = some ⟨formula, rest, lt⟩ := by
  rw [readAnd, part]
  cases rest with
  | nil => rfl
  | cons word after =>
    cases word with
    | and => exact absurd rfl ends
    | _ => rfl

theorem readAnd_more {lt : (Word.and :: after).length < words.length}
    {restLt : rest.length < after.length}
    (part : readPart words = some ⟨left, .and :: after, lt⟩)
    (more : readAnd after = some ⟨right, rest, restLt⟩) :
    ∃ lt, readAnd words = some ⟨.and left right, rest, lt⟩ := by
  refine ⟨Nat.lt_trans restLt (Nat.lt_of_succ_lt lt), ?_⟩
  rw [readAnd, part]
  simp only [more]

theorem readOr_part {lt : rest.length < words.length}
    (part : readAnd words = some ⟨formula, rest, lt⟩) (ends : rest.head? ≠ some .or) :
    readOr words = some ⟨formula, rest, lt⟩ := by
  rw [readOr, part]
  cases rest with
  | nil => rfl
  | cons word after =>
    cases word with
    | or => exact absurd rfl ends
    | _ => rfl

theorem readOr_more {lt : (Word.or :: after).length < words.length}
    {restLt : rest.length < after.length}
    (part : readAnd words = some ⟨left, .or :: after, lt⟩)
    (more : readOr after = some ⟨right, rest, restLt⟩) :
    ∃ lt, readOr words = some ⟨.or left right, rest, lt⟩ := by
  refine ⟨Nat.lt_trans restLt (Nat.lt_of_succ_lt lt), ?_⟩
  rw [readOr, part]
  simp only [more]

variable {parts : List (List Word)} {truths : List (Assignment → Bool)}

/-- Parts with `AND` between them are read up to a word that is no `AND`. -/
theorem readAnd_joined (each : List.Forall₂ Stands parts truths) (nonempty : parts ≠ []) :
    ∃ formula, (∀ rest, rest.head? ≠ some .and →
        ∃ lt, readAnd (Word.joinWith .and parts ++ rest) = some ⟨formula, rest, lt⟩) ∧
      ∀ assignment, formula.eval assignment = truths.all (· assignment) := by
  induction each with
  | nil => exact absurd rfl nonempty
  | @cons words truth parts truths stands more ih =>
    obtain ⟨first, reads, evalFirst⟩ := stands
    cases parts with
    | nil =>
      cases more
      refine ⟨first, ?_, by simp [evalFirst]⟩
      intro rest ends
      obtain ⟨lt, part⟩ := reads rest
      exact ⟨lt, readAnd_part part ends⟩
    | cons next parts =>
      obtain ⟨others, readsOthers, evalOthers⟩ := ih (by simp)
      refine ⟨.and first others, ?_, by simp [Formula.eval, evalFirst, evalOthers]⟩
      intro rest ends
      obtain ⟨_, part⟩ := reads (.and :: (Word.joinWith .and (next :: parts) ++ rest))
      obtain ⟨_, conjunction⟩ := readsOthers rest ends
      rw [Word.joinWith_cons_cons, List.append_assoc, List.cons_append]
      exact readAnd_more part conjunction

/-- Parts with `OR` between them are read up to a word that is no connective. -/
theorem readOr_joined (each : List.Forall₂ Stands parts truths) (nonempty : parts ≠ []) :
    ∃ formula, (∀ rest, rest.head? ≠ some .and → rest.head? ≠ some .or →
        ∃ lt, readOr (Word.joinWith .or parts ++ rest) = some ⟨formula, rest, lt⟩) ∧
      ∀ assignment, formula.eval assignment = truths.any (· assignment) := by
  induction each with
  | nil => exact absurd rfl nonempty
  | @cons words truth parts truths stands more ih =>
    obtain ⟨first, reads, evalFirst⟩ := stands
    cases parts with
    | nil =>
      cases more
      refine ⟨first, ?_, by simp [evalFirst]⟩
      intro rest noAnd noOr
      obtain ⟨lt, part⟩ := reads rest
      exact ⟨lt, readOr_part (readAnd_part part noAnd) noOr⟩
    | cons next parts =>
      obtain ⟨others, readsOthers, evalOthers⟩ := ih (by simp)
      refine ⟨.or first others, ?_, by simp [Formula.eval, evalFirst, evalOthers]⟩
      intro rest noAnd noOr
      obtain ⟨_, part⟩ := reads (.or :: (Word.joinWith .or (next :: parts) ++ rest))
      obtain ⟨_, disjunction⟩ := readsOthers rest noAnd noOr
      rw [Word.joinWith_cons_cons, List.append_assoc, List.cons_append]
      exact readOr_more (readAnd_part part (by simp)) disjunction

namespace Stands

theorem always : Stands [.always] fun _ => true :=
  ⟨.always, fun _ => ⟨Nat.lt_succ_self _, by simp [readPart]⟩, fun _ => rfl⟩

theorem condition (fragment : Fragment) :
    Stands [.condition fragment] fun assignment => assignment fragment :=
  ⟨.condition fragment, fun _ => ⟨Nat.lt_succ_self _, by simp [readPart]⟩, fun _ => rfl⟩

/-- Brackets make one part of everything that reading takes up to the closing one. -/
theorem bracketed
    (reads : ∀ rest, ∃ lt, readOr (words ++ .closing :: rest) =
      some ⟨formula, .closing :: rest, lt⟩)
    (evals : ∀ assignment, formula.eval assignment = truth assignment) :
    Stands (.opening :: words ++ [.closing]) truth := by
  refine ⟨formula, ?_, evals⟩
  intro rest
  obtain ⟨_, inner⟩ := reads rest
  rw [List.append_assoc, List.cons_append, List.singleton_append, readPart, inner]
  exact ⟨_, rfl⟩

theorem enclose (stands : Stands words truth) : Stands (.opening :: words ++ [.closing]) truth := by
  obtain ⟨formula, reads, evals⟩ := stands
  refine bracketed (fun rest => ?_) evals
  obtain ⟨lt, part⟩ := reads (.closing :: rest)
  exact ⟨lt, readOr_part (readAnd_part part (by simp)) (by simp)⟩

theorem negate (stands : Stands words truth) :
    Stands (.not :: words) fun assignment => !truth assignment := by
  obtain ⟨formula, reads, evals⟩ := stands
  refine ⟨.not formula, ?_, fun assignment => by rw [Formula.eval, evals]⟩
  intro rest
  obtain ⟨_, part⟩ := reads rest
  rw [List.cons_append, readPart, part]
  exact ⟨_, rfl⟩

theorem connect_and (each : List.Forall₂ Stands parts truths) (nonempty : parts ≠ []) :
    Stands (Word.connect .and parts) fun assignment => truths.all (· assignment) := by
  match each with
  | .nil => exact absurd rfl nonempty
  | .cons stands .nil => simpa [Word.connect] using stands
  | .cons first (.cons second more) =>
    obtain ⟨formula, reads, evals⟩ := readAnd_joined (.cons first (.cons second more)) nonempty
    refine bracketed (fun rest => ?_) evals
    obtain ⟨lt, conjunction⟩ := reads (.closing :: rest) (by simp)
    exact ⟨lt, readOr_part conjunction (by simp)⟩

theorem connect_or (each : List.Forall₂ Stands parts truths) (nonempty : parts ≠ []) :
    Stands (Word.connect .or parts) fun assignment => truths.any (· assignment) := by
  match each with
  | .nil => exact absurd rfl nonempty
  | .cons stands .nil => simpa [Word.connect] using stands
  | .cons first (.cons second more) =>
    obtain ⟨formula, reads, evals⟩ := readOr_joined (.cons first (.cons second more)) nonempty
    exact bracketed (fun rest => reads (.closing :: rest) (by simp) (by simp)) evals

/-- A part that stands alone is read as a whole. -/
theorem read (stands : Stands words truth) :
    ∃ formula, Formula.read words = some formula ∧
      ∀ assignment, formula.eval assignment = truth assignment := by
  obtain ⟨formula, reads, evals⟩ := stands
  obtain ⟨_, part⟩ : ∃ lt, readPart words = some ⟨formula, [], lt⟩ :=
    List.append_nil words ▸ reads []
  refine ⟨formula, ?_, evals⟩
  rw [Formula.read, readOr_part (readAnd_part part (by simp)) (by simp)]

end Stands

end TelemetryQuery.Sql
