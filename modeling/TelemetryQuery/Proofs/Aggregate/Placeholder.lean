import TelemetryQuery.Proofs.Aggregate.Rate
import TelemetryQuery.Proofs.Field.Resolution
import TelemetryQuery.Proofs.Sql.Plain
import TelemetryQuery.Proofs.Where.Placeholder
/- The placeholders of a compiled aggregation are those of the conditions in it, in their order. -/
namespace TelemetryQuery.Aggregate

open TelemetryQuery.Field (Key)
open TelemetryQuery.Sql (Expr Fragment)

/-- The expression that is read as a filter if an argument is a condition; a star is none. -/
def condition? : Expr → Option Expr
  | .all _ => none
  | .labelled _ (.all _) => none
  | .labelled _ value => some value
  | expr => some expr

/-- The condition among the arguments of a call. -/
def Function.condition? (function : Function) (arguments : List Expr) : Option Expr :=
  if function.conditional then arguments.getLast?.bind Aggregate.condition? else none

mutual

/-- The calls of aggregate functions that are compiled, from left to right, with their arguments.
A call inside an argument of one is not compiled. -/
def calls : Expr → List (Function × List Expr)
  | .unary _ inner => calls inner
  | .binary left _ right => calls left ++ calls right
  | .nested inner => calls inner
  | .labelled _ value => calls value
  | .call name _ _ arguments =>
    match Function.ofName? (Sql.nameText name) with
    | some function => [(function, arguments)]
    | none => callsAll arguments
  | _ => []

def callsAll : List Expr → List (Function × List Expr)
  | [] => []
  | expr :: rest => calls expr ++ callsAll rest

end

/-- The conditions of some calls, in their order. -/
def conditions (called : List (Function × List Expr)) : List Expr :=
  called.filterMap fun (function, arguments) => function.condition? arguments

theorem conditions_append (first second : List (Function × List Expr)) :
    conditions (first ++ second) = conditions first ++ conditions second :=
  List.filterMap_append

/-- A text in which others stand in order, and that has no question mark outside of them. -/
inductive Surrounds : List String → String → Prop
  | last {words : String} : '?' ∉ words.toList → Surrounds [] words
  | next {words part text : String} {parts : List String} :
      '?' ∉ words.toList → Surrounds parts text → Surrounds (part :: parts) (words ++ part ++ text)

theorem Surrounds.prepend {words text : String} {parts : List String}
    (plain : '?' ∉ words.toList) (surrounds : Surrounds parts text) :
    Surrounds parts (words ++ text) := by
  cases surrounds with
  | last plainLast => exact .last (by simp [plain, plainLast])
  | next plainFirst rest =>
    rw [← String.append_assoc, ← String.append_assoc]
    exact .next (by simp [plain, plainFirst]) rest

/-- SQL in which the clauses of some conditions stand in order, among texts without question
marks. -/
inductive Options.Places (options : Options) : List Expr → Fragment → Prop
  | nil : options.Places [] []
  | text {words : String} {placed : List Expr} {rest : Fragment} : '?' ∉ words.toList →
      options.Places placed rest → options.Places placed (.text words :: rest)
  | clause {condition : Expr} {clause : Where.Clause} {placed : List Expr} {rest : Fragment} :
      Where.compile options.filter condition.render = .ok clause → options.Places placed rest →
      options.Places (condition :: placed) (clause.fragment ++ rest)

namespace Options.Places

variable {options : Options} {placed more : List Expr} {fragment rest : Fragment}

theorem ofText {words : String} (plain : '?' ∉ words.toList) :
    options.Places [] (.ofText words) :=
  .text plain .nil

theorem append (first : options.Places placed fragment) (second : options.Places more rest) :
    options.Places (placed ++ more) (fragment ++ rest) := by
  induction first with
  | nil => exact second
  | text plain _ ih => exact .text plain ih
  | clause ok _ ih =>
    rw [List.append_assoc]
    exact .clause ok ih

theorem enclosed {before after : String} (plainBefore : '?' ∉ before.toList)
    (plainAfter : '?' ∉ after.toList) (places : options.Places placed fragment) :
    options.Places placed (.ofText before ++ fragment ++ .ofText after) := by
  have whole := (Places.text plainBefore places).append (ofText plainAfter)
  rwa [List.append_nil] at whole

theorem listing {part : Part} {parts : List Part} (first : options.Places placed part.fragment)
    (second : options.Places more (Part.listing parts).fragment) :
    options.Places (placed ++ more) (Part.listing (part :: parts)).fragment := by
  cases parts with
  | nil =>
    have joined := first.append second
    rwa [Part.listing, List.append_nil] at joined
  | cons next parts =>
    have comma : options.Places [] (.ofText ", ") := ofText (by decide)
    have joined := (first.append comma).append second
    rwa [List.append_nil] at joined

/-- The values are those of the clauses, and there are question marks in the clauses only. -/
theorem exists_clauses (places : options.Places placed fragment) :
    ∃ clauses, List.Forall₂ (fun condition clause =>
        Where.compile options.filter condition.render = .ok clause) placed clauses ∧
      Surrounds (clauses.map Where.Clause.sql) fragment.sql ∧
      fragment.arguments = clauses.flatMap Where.Clause.arguments := by
  induction places with
  | nil => exact ⟨[], .nil, .last (by decide), rfl⟩
  | @text words placed rest plain _ ih =>
    obtain ⟨clauses, compiled, surrounds, bound⟩ := ih
    refine ⟨clauses, compiled, ?_, bound⟩
    have shown : Fragment.sql (.text words :: rest) = words ++ rest.sql :=
      Fragment.sql_append [.text words] rest
    rw [shown]
    exact surrounds.prepend plain
  | @clause condition clause placed rest ok _ ih =>
    obtain ⟨clauses, compiled, surrounds, bound⟩ := ih
    refine ⟨clause :: clauses, .cons ok compiled, ?_, ?_⟩
    · have next : Surrounds (clause.sql :: clauses.map Where.Clause.sql)
          ("" ++ clause.sql ++ rest.sql) := .next (by decide) surrounds
      rwa [String.empty_append, Where.Clause.sql, ← Fragment.sql_append] at next
    · rw [Fragment.arguments_append, bound]
      rfl

theorem plain (names : options.filter.PlainNames) (places : options.Places placed fragment) :
    fragment.Plain := by
  induction places with
  | nil => exact Fragment.plain_nil
  | text plain _ ih => exact Fragment.plain_text.2 ⟨plain, ih⟩
  | clause ok _ ih => exact Fragment.plain_append.2 ⟨Where.compile_plain names ok, ih⟩

end Options.Places

section Columns

variable {options : Options} {numeric : Bool}

theorem resolve_plain (names : options.filter.PlainNames) {key : Key} {intrinsic : Option Key}
    (plain : '?' ∉ key.name.toList) (same : ∀ field ∈ intrinsic, field.name = key.name) :
    '?' ∉ (key.resolve options.filter.catalog intrinsic).result.name.toList := by
  have known (name : String) : ∀ field ∈ options.filter.catalog.find name,
      '?' ∉ field.name.toList := fun field mem =>
    names field (List.mem_append_left _ (Where.mem_keys_of_mem_find mem))
  have settled : '?' ∉ (key.settle (key.matching options.filter.catalog)).result.name.toList := by
    match found : key.matching options.filter.catalog with
    | [] => exact plain
    | [only] =>
      have mem : only ∈ key.matching options.filter.catalog := by simp [found]
      rw [Key.matching_eq, List.mem_append, List.mem_filter, Key.qualified] at mem
      rcases mem with ⟨own, -⟩ | other
      · exact known _ only own
      · split at other
        · exact known _ only (List.mem_filter.1 other).1
        · cases other
    | first :: second :: rest =>
      rw [Key.settle, Key.fill_name]
      · exact plain
      · simp
  unfold Key.resolve
  split
  · next field =>
    split
    · rw [same field rfl]
      exact plain
    · exact settled
  · exact settled

theorem column_plain (names : options.filter.PlainNames) {name column : String}
    (plain : '?' ∉ name.toList) (ok : options.column numeric name = .ok column) :
    '?' ∉ column.toList := by
  have plainKey := Where.name_plain plain
  unfold Options.column at ok
  extract_lets key intrinsic resolved at ok
  have plainName : '?' ∉ resolved.name.toList := by
    refine resolve_plain names plainKey fun field mem => ?_
    have found : options.intrinsic.reverse.find? (·.name == key.name) = some field := mem
    have same := List.find?_some found
    exact beq_iff_eq.1 same
  split at ok
  · next found =>
    cases ok
    have plainColumn := Schema.Table.field_plain found plainName
    split <;> simp [plainColumn]
  · cases ok

mutual

theorem operand_plain (names : options.filter.PlainNames) : ∀ {expr : Expr} {column : String},
    expr.Plain → options.operand numeric expr = .ok column → '?' ∉ column.toList
  | .name parts, column, plain, ok => by
    rw [Options.operand] at ok
    refine column_plain names ?_ ok
    rw [Sql.mem_joinWith (by decide)]
    rintro ⟨_, mem, shown⟩
    obtain ⟨part, among, rfl⟩ := List.mem_map.1 mem
    exact Sql.Ident.value_plain (Expr.plain_name.1 plain part among) shown
  | .unary op inner, column, plain, ok => by
    rw [Options.operand] at ok
    obtain ⟨shown, okInner, ⟨⟩⟩ := ok_of_bind ok
    simp [op.text_plain, operand_plain names (Expr.plain_unary.1 plain) okInner]
  | .binary left op right, column, plain, ok => by
    rw [Options.operand] at ok
    obtain ⟨first, okLeft, ok⟩ := ok_of_bind ok
    obtain ⟨second, okRight, ⟨⟩⟩ := ok_of_bind ok
    have plainLeft := operand_plain names (Expr.plain_binary.1 plain).1 okLeft
    have plainRight := operand_plain names (Expr.plain_binary.1 plain).2 okRight
    simp [op.text_plain, plainLeft, plainRight]
  | .nested inner, column, plain, ok => by
    rw [Options.operand] at ok
    obtain ⟨shown, okInner, ⟨⟩⟩ := ok_of_bind ok
    simp [operand_plain names (Expr.plain_nested.1 plain) okInner]
  | .labelled label value, column, plain, ok => by
    rw [Options.operand] at ok
    obtain ⟨shown, okValue, ⟨⟩⟩ := ok_of_bind ok
    obtain ⟨plainLabel, plainValue⟩ := Expr.plain_labelled.1 plain
    simp [plainLabel, operand_plain names plainValue okValue]
  | .call function parameters mode arguments, column, plain, ok => by
    rw [Options.operand] at ok
    obtain ⟨columns, okColumns, ⟨⟩⟩ := ok_of_bind ok
    obtain ⟨plainFunction, plainParameters, plainMode, plainArguments⟩ := Expr.plain_call.1 plain
    have plainColumns := operands_plain names plainArguments okColumns
    simpa [Sql.mem_joinWith, plainParameters, plainMode] using ⟨plainFunction, plainColumns⟩
  | .number _, _, plain, ok | .text _, _, plain, ok | .phrase _, _, plain, ok
  | .all _, _, plain, ok => by
    cases ok
    exact plain.shown

theorem operands_plain (names : options.filter.PlainNames) :
    ∀ {exprs : List Expr} {columns : List String}, (∀ expr ∈ exprs, expr.Plain) →
    options.operands numeric exprs = .ok columns → ∀ column ∈ columns, '?' ∉ column.toList
  | [], columns, _, ok => by
    cases ok
    simp
  | expr :: rest, columns, plain, ok => by
    rw [Options.operands] at ok
    obtain ⟨first, okFirst, ok⟩ := ok_of_bind ok
    obtain ⟨others, okOthers, ⟨⟩⟩ := ok_of_bind ok
    obtain ⟨plainFirst, plainRest⟩ := List.forall_mem_cons.1 plain
    exact List.forall_mem_cons.2 ⟨operand_plain names plainFirst okFirst,
      operands_plain names plainRest okOthers⟩

end

end Columns

namespace Part

variable (part : Part)

@[simp] theorem changed_plain (text : String) : (plain text).changed = false :=
  rfl

@[simp] theorem changed_append (other : Part) :
    (part ++ other).changed = (part.changed || other.changed) :=
  rfl

@[simp] theorem changed_listing (parts : List Part) :
    (listing (part :: parts)).changed = (part.changed || (listing parts).changed) := by
  cases parts with
  | nil => simp [listing]
  | cons next parts => simp [listing]

end Part

section Calls

variable {options : Options}

theorem condition_places {expr : Expr} {part : Part} (ok : options.condition expr = .ok part) :
    options.Places [expr] part.fragment := by
  unfold Options.condition at ok
  split at ok
  · next compiled =>
    cases ok
    have placed := Options.Places.clause compiled .nil
    rwa [List.append_nil] at placed
  · cases ok

theorem conditionArgument_places {expr : Expr} {part : Part} (plain : expr.Plain)
    (ok : options.conditionArgument expr = .ok part) :
    options.Places (condition? expr).toList part.fragment := by
  unfold Options.conditionArgument at ok
  split at ok
  · cases ok
    exact .ofText plain.shown
  · cases ok
    exact .ofText plain.shown
  · next label value other =>
    obtain ⟨inner, okInner, ⟨⟩⟩ := ok_of_bind ok
    rw [condition?]
    · refine .text ?_ (condition_places okInner)
      simp [(Expr.plain_labelled.1 plain).1]
    · exact other
  · next unstarred _ unlabelled =>
    rw [condition?]
    · exact condition_places ok
    · exact unstarred
    · exact fun label parts => unlabelled label (.all parts)
    · exact unlabelled

theorem arguments_places (names : options.filter.PlainNames) {function : Function}
    {exprs : List Expr} {parts : List Part} (plain : ∀ expr ∈ exprs, expr.Plain)
    (ok : options.arguments function exprs = .ok parts) :
    options.Places (function.condition? exprs).toList (Part.listing parts).fragment := by
  fun_induction Options.arguments options function exprs generalizing parts with
  | case1 =>
    cases ok
    rw [Function.condition?]
    split <;> exact .nil
  | case2 last conditional =>
    obtain ⟨part, okPart, ⟨⟩⟩ := ok_of_bind ok
    rw [Function.condition?, if_pos conditional]
    exact conditionArgument_places (List.forall_mem_singleton.1 plain) okPart
  | case3 last unconditional =>
    obtain ⟨shown, okShown, ⟨⟩⟩ := ok_of_bind ok
    rw [Function.condition?, if_neg unconditional]
    exact .ofText (operand_plain names (List.forall_mem_singleton.1 plain) okShown)
  | case4 expr rest several ih =>
    obtain ⟨shown, okShown, ok⟩ := ok_of_bind ok
    obtain ⟨others, okOthers, ⟨⟩⟩ := ok_of_bind ok
    obtain ⟨plainFirst, plainRest⟩ := List.forall_mem_cons.1 plain
    have first : options.Places [] (Part.plain shown).fragment :=
      .ofText (operand_plain names plainFirst okShown)
    -- The condition is the last argument, whatever stands before it.
    have same : function.condition? (expr :: rest) = function.condition? rest := by
      cases rest with
      | nil => exact absurd rfl several
      | cons next rest => rw [Function.condition?, Function.condition?, List.getLast?_cons_cons]
    rw [same]
    exact first.listing (ih plainRest okOthers)

theorem aggregate_places (names : options.filter.PlainNames) {function : Function}
    (known : function ∈ Function.all) {parameters mode : String} {exprs : List Expr} {part : Part}
    (plainParameters : '?' ∉ parameters.toList) (plainMode : '?' ∉ mode.toList)
    (plain : ∀ expr ∈ exprs, expr.Plain)
    (ok : options.aggregate function parameters mode exprs = .ok part) :
    options.Places (function.condition? exprs).toList part.fragment := by
  have plainNames : ∀ function ∈ Function.all, '?' ∉ function.sqlName.toList := by decide +kernel
  unfold Options.aggregate at ok
  split at ok
  · cases ok
  · obtain ⟨parts, okParts, ⟨⟩⟩ := ok_of_bind ok
    refine (arguments_places names plain okParts).enclosed ?_ (by decide)
    simp [plainNames function known, plainParameters, plainMode]

mutual

theorem expr_places (names : options.filter.PlainNames) : ∀ {expr : Expr} {part : Part},
    expr.Plain → options.expr expr = .ok part →
    options.Places (conditions (calls expr)) part.fragment
  | .unary op inner, part, plain, ok => by
    rw [Options.expr] at ok
    obtain ⟨shown, okInner, ⟨⟩⟩ := ok_of_bind ok
    rw [calls]
    exact .text op.text_plain (expr_places names (Expr.plain_unary.1 plain) okInner)
  | .binary left op right, part, plain, ok => by
    rw [Options.expr] at ok
    obtain ⟨first, okLeft, ok⟩ := ok_of_bind ok
    obtain ⟨second, okRight, ⟨⟩⟩ := ok_of_bind ok
    obtain ⟨plainLeft, plainRight⟩ := Expr.plain_binary.1 plain
    have middle : options.Places [] (.ofText (" " ++ op.text ++ " ")) :=
      .ofText (by simp [op.text_plain])
    have first := (expr_places names plainLeft okLeft).append middle
    rw [List.append_nil] at first
    rw [calls, conditions_append]
    exact first.append (expr_places names plainRight okRight)
  | .nested inner, part, plain, ok => by
    rw [Options.expr] at ok
    obtain ⟨shown, okInner, ⟨⟩⟩ := ok_of_bind ok
    rw [calls]
    exact (expr_places names (Expr.plain_nested.1 plain) okInner).enclosed (by decide) (by decide)
  | .labelled label value, part, plain, ok => by
    rw [Options.expr] at ok
    obtain ⟨shown, okValue, ⟨⟩⟩ := ok_of_bind ok
    obtain ⟨plainLabel, plainValue⟩ := Expr.plain_labelled.1 plain
    rw [calls]
    exact .text (by simp [plainLabel]) (expr_places names plainValue okValue)
  | .call name parameters mode arguments, part, plain, ok => by
    obtain ⟨plainName, plainParameters, plainMode, plainArguments⟩ := Expr.plain_call.1 plain
    rw [Options.expr] at ok
    rw [calls]
    cases found : Function.ofName? (Sql.nameText name) with
    | some function =>
      rw [found] at ok
      have known : function ∈ Function.all := List.mem_of_find?_eq_some found
      have placed := aggregate_places names known plainParameters plainMode plainArguments ok
      cases condition : function.condition? arguments <;>
        simpa [conditions, condition] using placed
    | none =>
      rw [found] at ok
      obtain ⟨parts, okParts, ⟨⟩⟩ := ok_of_bind ok
      refine (exprs_places names plainArguments okParts).enclosed ?_ (by decide)
      simpa [plainParameters, plainMode] using plainName
  | .name _, _, plain, ok | .number _, _, plain, ok | .text _, _, plain, ok
  | .phrase _, _, plain, ok | .all _, _, plain, ok => by
    cases ok
    exact .ofText plain.shown

theorem exprs_places (names : options.filter.PlainNames) :
    ∀ {exprs : List Expr} {parts : List Part}, (∀ expr ∈ exprs, expr.Plain) →
    options.exprs exprs = .ok parts →
    options.Places (conditions (callsAll exprs)) (Part.listing parts).fragment
  | [], parts, _, ok => by
    cases ok
    exact .nil
  | expr :: rest, parts, plain, ok => by
    rw [Options.exprs] at ok
    obtain ⟨first, okFirst, ok⟩ := ok_of_bind ok
    obtain ⟨others, okOthers, ⟨⟩⟩ := ok_of_bind ok
    obtain ⟨plainFirst, plainRest⟩ := List.forall_mem_cons.1 plain
    rw [callsAll, conditions_append]
    exact (expr_places names plainFirst okFirst).listing (exprs_places names plainRest okOthers)

end

mutual

theorem unchanged_iff : ∀ {expr : Expr} {part : Part}, options.expr expr = .ok part →
    (part.changed = false ↔ calls expr = [])
  | .unary op inner, part, ok => by
    rw [Options.expr] at ok
    obtain ⟨shown, okInner, ⟨⟩⟩ := ok_of_bind ok
    simp [calls, ← unchanged_iff okInner]
  | .binary left op right, part, ok => by
    rw [Options.expr] at ok
    obtain ⟨first, okLeft, ok⟩ := ok_of_bind ok
    obtain ⟨second, okRight, ⟨⟩⟩ := ok_of_bind ok
    simp [calls, ← unchanged_iff okLeft, ← unchanged_iff okRight]
  | .nested inner, part, ok => by
    rw [Options.expr] at ok
    obtain ⟨shown, okInner, ⟨⟩⟩ := ok_of_bind ok
    simp [calls, ← unchanged_iff okInner]
  | .labelled label value, part, ok => by
    rw [Options.expr] at ok
    obtain ⟨shown, okValue, ⟨⟩⟩ := ok_of_bind ok
    simp [calls, ← unchanged_iff okValue]
  | .call name parameters mode arguments, part, ok => by
    rw [Options.expr] at ok
    rw [calls]
    cases found : Function.ofName? (Sql.nameText name) with
    | some function =>
      rw [found] at ok
      have changed : part.changed = true := (options.aggregate_shows ok).changed
      simp [changed]
    | none =>
      rw [found] at ok
      obtain ⟨parts, okParts, ⟨⟩⟩ := ok_of_bind ok
      simp [← listing_unchanged_iff okParts]
  | .name _, _, ok | .number _, _, ok | .text _, _, ok | .phrase _, _, ok | .all _, _, ok => by
    cases ok
    simp [calls]

theorem listing_unchanged_iff : ∀ {exprs : List Expr} {parts : List Part},
    options.exprs exprs = .ok parts →
    ((Part.listing parts).changed = false ↔ callsAll exprs = [])
  | [], parts, ok => by
    cases ok
    simp [callsAll, Part.listing]
  | expr :: rest, parts, ok => by
    rw [Options.exprs] at ok
    obtain ⟨first, okFirst, ok⟩ := ok_of_bind ok
    obtain ⟨others, okOthers, ⟨⟩⟩ := ok_of_bind ok
    simp [callsAll, ← unchanged_iff okFirst, ← listing_unchanged_iff okOthers]

end

mutual

/-- Only calls of aggregate functions can fail. -/
theorem expr_ok : ∀ {expr : Expr}, calls expr = [] → ∃ part, options.expr expr = .ok part
  | .unary op inner, uncalled => by
    rw [calls] at uncalled
    obtain ⟨part, ok⟩ := expr_ok uncalled
    exact ⟨_, by rw [Options.expr, ok]; rfl⟩
  | .binary left op right, uncalled => by
    rw [calls, List.append_eq_nil_iff] at uncalled
    obtain ⟨first, okLeft⟩ := expr_ok uncalled.1
    obtain ⟨second, okRight⟩ := expr_ok uncalled.2
    exact ⟨_, by rw [Options.expr, okLeft, okRight]; rfl⟩
  | .nested inner, uncalled => by
    rw [calls] at uncalled
    obtain ⟨part, ok⟩ := expr_ok uncalled
    exact ⟨_, by rw [Options.expr, ok]; rfl⟩
  | .labelled label value, uncalled => by
    rw [calls] at uncalled
    obtain ⟨part, ok⟩ := expr_ok uncalled
    exact ⟨_, by rw [Options.expr, ok]; rfl⟩
  | .call name parameters mode arguments, uncalled => by
    rw [calls] at uncalled
    split at uncalled
    · cases uncalled
    · next unknown =>
      obtain ⟨parts, ok⟩ := exprs_ok uncalled
      exact ⟨_, by rw [Options.expr, unknown, ok]; rfl⟩
  | .name _, _ | .number _, _ | .text _, _ | .phrase _, _ | .all _, _ => ⟨_, rfl⟩

theorem exprs_ok : ∀ {exprs : List Expr}, callsAll exprs = [] →
    ∃ parts, options.exprs exprs = .ok parts
  | [], _ => ⟨[], rfl⟩
  | expr :: rest, uncalled => by
    rw [callsAll, List.append_eq_nil_iff] at uncalled
    obtain ⟨first, okFirst⟩ := expr_ok uncalled.1
    obtain ⟨others, okOthers⟩ := exprs_ok uncalled.2
    exact ⟨_, by rw [Options.exprs, okFirst, okOthers]; rfl⟩

end

end Calls

section Compiled

variable {options : Options} {text : String} {expr : Expr}

theorem sql_ofText (text : String) : Fragment.sql (.ofText text) = text := by
  apply String.toList_injective
  simp [Fragment.sql, Fragment.ofText, Sql.Piece.sql]

theorem compile_unchanged (read : Sql.read text = .ok expr) (uncalled : calls expr = []) :
    compile options text = .ok ⟨.ofText text, []⟩ := by
  obtain ⟨part, ok⟩ : ∃ part, options.expr expr = .ok part := expr_ok uncalled
  have unchanged : ¬ part.changed = true := by simp [(unchanged_iff ok).2 uncalled]
  rw [compile, read]
  dsimp only
  rw [ok]
  exact if_neg unchanged

theorem division_places (rate : Bool) :
    options.Places [] (if rate then [.text ("/" ++ toString options.interval)] else []) := by
  cases rate with
  | false => exact .nil
  | true =>
    refine .ofText ?_
    rw [String.toList_append, List.mem_append]
    rintro (slash | digit)
    · exact absurd slash (by decide)
    · have digits : (toString options.interval).toList = Nat.toDigits 10 options.interval :=
        Nat.toList_repr
      rw [digits] at digit
      exact absurd (Nat.isDigit_of_mem_toDigits (by decide) (by decide) digit) (by decide)

theorem compile_places (plain : '?' ∉ text.toList) (names : options.filter.PlainNames)
    (read : Sql.read text = .ok expr) {compiled : Compiled}
    (ok : compile options text = .ok compiled) :
    options.Places (conditions (calls expr)) compiled.fragment := by
  -- Without a call the text itself is given back, not what its expression shows.
  cases called : calls expr with
  | nil =>
    rw [compile_unchanged read called] at ok
    cases ok
    exact .ofText plain
  | cons call more =>
    rw [compile, read] at ok
    obtain ⟨part, okPart, made⟩ := ok_of_bind ok
    have changed : part.changed ≠ false := by simp [unchanged_iff okPart, called]
    rw [if_pos (Bool.eq_true_of_not_eq_false changed)] at made
    cases made
    have placed := (expr_places names (Sql.read_plain plain read) okPart).append
      (division_places part.rate)
    rwa [List.append_nil, called] at placed

end Compiled

end TelemetryQuery.Aggregate
