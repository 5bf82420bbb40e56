import TelemetryQuery.Sql.Fragment
/- SQL that is written while its values are bound, one after the other, in a shared list. -/
namespace TelemetryQuery.Sql

/-- What a builder writes: a character of a text, or a placeholder with the number under which its
value was bound. -/
inductive Glyph where
  | char (c : Char)
  | hole (number : Nat)
deriving DecidableEq, Repr, Inhabited

/-- The character that is read; all placeholders read alike. -/
def Glyph.shown : Glyph → Char
  | char c => c
  | hole _ => '?'

/-- Written SQL whose placeholders are told apart. -/
abbrev Script :=
  List Glyph

namespace Script

def ofText (text : String) : Script :=
  text.toList.map .char

def sql (script : Script) : String :=
  String.ofList (script.map Glyph.shown)

/-- What is read as placeholders, from left to right. -/
def placeholders (script : Script) : List Glyph :=
  script.filter (·.shown == '?')

/-- The scripts in order, with a separator between neighbours. -/
def joinWith (separator : String) : List Script → Script
  | [] => []
  | [script] => script
  | script :: rest => script ++ ofText separator ++ joinWith separator rest

/-- Joins conditions by a connective: none are nothing, one stays as it is, and more stand in
brackets. -/
def connect (connective : String) : List Script → Script
  | [] => []
  | [script] => script
  | scripts => ofText "(" ++ joinWith (" " ++ connective ++ " ") scripts ++ ofText ")"

end Script

/-- Steps that share the list of the values bound so far. -/
abbrev Builder :=
  StateM (List Value)

namespace Builder

variable {α β : Type}

def var (value : Value) : Builder Script :=
  modifyGet fun bound => ([.hole bound.length], bound ++ [value])

/-- What steps give, and what is bound after them. -/
def result (run : Builder α) (bound : List Value) : α × List Value :=
  run.run bound

@[simp] theorem result_pure (a : α) (bound : List Value) :
    result (pure a) bound = (a, bound) :=
  rfl

@[simp] theorem result_bind (run : Builder α) (next : α → Builder β) (bound : List Value) :
    result (run >>= next) bound = (next (run.result bound).1).result (run.result bound).2 :=
  rfl

@[simp] theorem result_map (f : α → β) (run : Builder α) (bound : List Value) :
    result (f <$> run) bound = (f (run.result bound).1, (run.result bound).2) :=
  rfl

@[simp] theorem result_var (value : Value) (bound : List Value) :
    result (var value) bound = ([.hole bound.length], bound ++ [value]) :=
  rfl

end Builder

namespace Fragment

variable {first second : Fragment} {fragments : List Fragment} {start : Nat}

/-- A fragment as it is written if its first value is bound under a number and the others after
it. -/
def mark (start : Nat) : Fragment → Script
  | [] => []
  | .text words :: rest => Script.ofText words ++ mark start rest
  | .bound _ :: rest => .hole start :: mark (start + 1) rest

@[simp] theorem mark_nil : mark start [] = [] :=
  rfl

@[simp] theorem mark_text (words : String) :
    mark start (.text words :: first) = Script.ofText words ++ mark start first :=
  rfl

@[simp] theorem mark_bound (value : Value) :
    mark start (.bound value :: first) = .hole start :: mark (start + 1) first :=
  rfl

@[simp] theorem arguments_nil : arguments [] = [] :=
  rfl

@[simp] theorem arguments_text (words : String) :
    arguments (.text words :: first) = arguments first :=
  rfl

@[simp] theorem arguments_bound (value : Value) :
    arguments (.bound value :: first) = value :: arguments first :=
  rfl

@[simp] theorem arguments_append :
    arguments (first ++ second) = arguments first ++ arguments second :=
  List.filterMap_append

@[simp] theorem mark_append :
    mark start (first ++ second) =
      mark start first ++ mark (start + (arguments first).length) second := by
  induction first generalizing start with
  | nil => rfl
  | cons piece first ih =>
    cases piece with
    | text words => simp [ih]
    | bound value => simp [ih, Nat.add_assoc, Nat.add_comm 1]

/-- Fragments as they are written one after the other. -/
def markEach (start : Nat) : List Fragment → List Script
  | [] => []
  | fragment :: rest => fragment.mark start :: markEach (start + fragment.arguments.length) rest

theorem arguments_joinWith (separator : String) :
    arguments (joinWith separator fragments) = fragments.flatMap arguments := by
  fun_induction joinWith separator fragments with
  | case1 => rfl
  | case2 fragment => simp
  | case3 fragment rest _ ih => simp [ih]

theorem mark_joinWith (separator : String) :
    mark start (joinWith separator fragments) =
      Script.joinWith separator (markEach start fragments) := by
  fun_induction joinWith separator fragments generalizing start with
  | case1 => rfl
  | case2 fragment => rfl
  | case3 fragment rest several ih =>
    cases rest with
    | nil => exact absurd rfl several
    | cons second rest => simp [ih, markEach, Script.joinWith]

theorem arguments_connect (connective : String) :
    arguments (connect connective fragments) = fragments.flatMap arguments := by
  fun_cases connect connective fragments with
  | case1 => rfl
  | case2 fragment => simp
  | case3 => simp [arguments_joinWith]

theorem mark_connect (connective : String) :
    mark start (connect connective fragments) =
      Script.connect connective (markEach start fragments) := by
  match fragments with
  | [] => rfl
  | [fragment] => rfl
  | first :: second :: rest => simp [connect, Script.connect, markEach, mark_joinWith]

theorem sql_mark (start : Nat) (fragment : Fragment) :
    (mark start fragment).sql = sql fragment := by
  apply String.toList_injective
  rw [Script.sql, sql, String.toList_ofList, String.toList_join]
  induction fragment generalizing start with
  | nil => rfl
  | cons piece rest ih =>
    cases piece with
    | text words => simp [ih, Script.ofText, Piece.sql, Function.comp_def, Glyph.shown]
    | bound value => simp [ih, Piece.sql, Glyph.shown]

/-- A fragment that is written as something. -/
def Visible (fragment : Fragment) : Prop :=
  ∀ start, mark start fragment ≠ []

/-- A fragment with no question mark but its placeholders. -/
def Plain (fragment : Fragment) : Prop :=
  ∀ words, .text words ∈ fragment → '?' ∉ words.toList

@[simp] theorem plain_nil : Plain [] := by
  simp [Plain]

@[simp] theorem plain_text {words : String} :
    Plain (.text words :: first) ↔ '?' ∉ words.toList ∧ Plain first := by
  simp [Plain, or_imp, forall_and]

@[simp] theorem plain_bound {value : Value} : Plain (.bound value :: first) ↔ Plain first := by
  simp [Plain]

@[simp] theorem plain_append : Plain (first ++ second) ↔ Plain first ∧ Plain second := by
  simp [Plain, or_imp, forall_and]

theorem plain_joinWith {separator : String} (plain : '?' ∉ separator.toList)
    (each : ∀ fragment ∈ fragments, Plain fragment) : Plain (joinWith separator fragments) := by
  fun_induction joinWith separator fragments with
  | case1 => exact plain_nil
  | case2 fragment => exact each fragment (List.mem_singleton.2 rfl)
  | case3 fragment rest _ ih =>
    obtain ⟨eachFirst, eachRest⟩ := List.forall_mem_cons.1 each
    exact plain_append.2 ⟨eachFirst, plain_text.2 ⟨plain, ih eachRest⟩⟩

theorem plain_connect {connective : String} (plain : '?' ∉ connective.toList)
    (each : ∀ fragment ∈ fragments, Plain fragment) : Plain (connect connective fragments) := by
  fun_cases connect connective fragments with
  | case1 => exact plain_nil
  | case2 fragment => exact each fragment (List.mem_singleton.2 rfl)
  | case3 =>
    have spaced : '?' ∉ (" " ++ connective ++ " ").toList := by simp [plain]
    simp [plain_joinWith spaced each]

/-- In a plain fragment the placeholders are those of its values, in order. -/
theorem placeholders_mark {fragment : Fragment} (plain : Plain fragment) (start : Nat) :
    (mark start fragment).placeholders =
      (List.range' start (arguments fragment).length).map .hole := by
  induction fragment generalizing start with
  | nil => rfl
  | cons piece rest ih =>
    cases piece with
    | text words =>
      obtain ⟨plainWords, plainRest⟩ := plain_text.1 plain
      -- Text has characters only, so a mark in it would be a question mark among the words.
      have none : (Script.ofText words).placeholders = [] := by
        simp only [Script.placeholders, Script.ofText, List.filter_eq_nil_iff, List.mem_map]
        rintro _ ⟨c, mem, rfl⟩ mark
        exact plainWords (beq_iff_eq.1 mark ▸ mem)
      rw [mark_text, Script.placeholders, List.filter_append, ← Script.placeholders, none]
      exact ih plainRest start
    | bound value =>
      rw [mark_bound, arguments_bound, List.length_cons, List.range'_succ, List.map_cons,
        ← ih (plain_bound.1 plain)]
      rfl

theorem count_sql {fragment : Fragment} (plain : Plain fragment) :
    (sql fragment).toList.count '?' = (arguments fragment).length := by
  have length := congrArg List.length (placeholders_mark plain 0)
  rw [List.length_map, List.length_range'] at length
  rw [← length, ← sql_mark 0, Script.sql, String.toList_ofList, List.count, List.countP_map,
    List.countP_eq_length_filter]
  rfl

end Fragment

end TelemetryQuery.Sql
