import TelemetryQuery.Field.KeyText
/- A key is read back from its text. -/
namespace TelemetryQuery.Text

section Cut

variable {mark : Char} {text head rest : List Char}

theorem cutAt?_eq_none : cutAt? (· == mark) text = none ↔ mark ∉ text := by
  induction text with
  | nil => simp [cutAt?]
  | cons c text ih =>
    by_cases same : c = mark
    · simp [cutAt?, same]
    · simp [cutAt?, same, ih, Ne.symm same]

theorem cutAt?_append (first : mark ∉ head) :
    cutAt? (· == mark) (head ++ mark :: rest) = some (head, rest) := by
  induction head with
  | nil => simp [cutAt?]
  | cons c head ih =>
    obtain ⟨other, later⟩ := not_or.1 (mt List.mem_cons.2 first)
    simp [cutAt?, Ne.symm other, ih later]

theorem cutAt?_some (cut : cutAt? (· == mark) text = some (head, rest)) :
    text = head ++ mark :: rest ∧ mark ∉ head := by
  induction text generalizing head with
  | nil => simp [cutAt?] at cut
  | cons c text ih =>
    by_cases same : c = mark
    · subst same
      simp only [cutAt?, beq_self_eq_true, if_true, Option.some.injEq, Prod.mk.injEq] at cut
      obtain ⟨rfl, rfl⟩ := cut
      simp
    · simp only [cutAt?, beq_iff_eq, same, if_false] at cut
      obtain ⟨⟨a, b⟩, inner, found⟩ := Option.map_eq_some_iff.1 cut
      obtain ⟨rfl, rfl⟩ := Prod.mk.inj found
      obtain ⟨rfl, first⟩ := ih inner
      exact ⟨rfl, by simp [Ne.symm same, first]⟩

theorem cutAtLast?_eq_none : cutAtLast? (· == mark) text = none ↔ mark ∉ text := by
  induction text with
  | nil => simp [cutAtLast?]
  | cons c text ih =>
    rw [cutAtLast?, List.mem_cons, not_or, ← ih]
    cases later : cutAtLast? (· == mark) text with
    | some pair => simp
    | none =>
      by_cases same : c = mark
      · simp [same]
      · simp [same, Ne.symm same]

theorem cutAtLast?_append (last : mark ∉ rest) :
    cutAtLast? (· == mark) (head ++ mark :: rest) = some (head, rest) := by
  induction head with
  | nil => simp [cutAtLast?, cutAtLast?_eq_none.2 last]
  | cons c head ih => rw [List.cons_append, cutAtLast?, ih]

theorem cutAtLast?_some (cut : cutAtLast? (· == mark) text = some (head, rest)) :
    text = head ++ mark :: rest ∧ mark ∉ rest := by
  induction text generalizing head with
  | nil => simp [cutAtLast?] at cut
  | cons c text ih =>
    rw [cutAtLast?] at cut
    cases later : cutAtLast? (· == mark) text with
    | some pair =>
      simp only [later, Option.some.injEq, Prod.mk.injEq] at cut
      obtain ⟨rfl, rfl⟩ := cut
      obtain ⟨rfl, last⟩ := ih later
      exact ⟨rfl, last⟩
    | none =>
      by_cases same : c = mark
      · subst same
        simp only [later, beq_self_eq_true, if_true, Option.some.injEq, Prod.mk.injEq] at cut
        obtain ⟨rfl, rfl⟩ := cut
        exact ⟨rfl, cutAtLast?_eq_none.1 later⟩
      · simp [later, same] at cut

end Cut

/-- Characters that lower case leaves are still there. -/
theorem toLower_mem {name word : String} (same : lower name = word) {c : Char}
    (mem : c ∈ name.toList) : c.toLower ∈ word.toList := by
  rw [← same, lower, String.toList_ofList]
  exact List.mem_map_of_mem mem

end TelemetryQuery.Text

namespace TelemetryQuery.Field

theorem Context.ofName?_name {name : String} {context : Context}
    (found : ofName? name = some context) :
    Text.lower name ∈ ["resource", "scope", "attribute", "attributes", "tag", "point", "span",
      "log", "metric", "trace", "event", "body"] := by
  unfold ofName? at found
  split at found <;> simp_all

/-- The names of contexts hold no array marks. -/
theorem Context.ofName?_unmarked {name : String} {context : Context}
    (found : ofName? name = some context) : '[' ∉ name.toList := by
  intro within
  have names : ∀ word ∈ ["resource", "scope", "attribute", "attributes", "tag", "point", "span",
      "log", "metric", "trace", "event", "body"], '['.toLower ∉ word.toList := by decide
  exact names _ (ofName?_name found) (Text.toLower_mem rfl within)

theorem Context.ofName?_ne_unspecified {name : String} {context : Context}
    (found : ofName? name = some context) : context ≠ .unspecified := by
  unfold ofName? at found
  split at found <;> cases found <;> decide

theorem DataType.ofName?_ne_unspecified {name : String} {type : DataType}
    (found : ofName? name = some type) : type ≠ .unspecified := by
  unfold ofName? at found
  grind

/-- Each context is named by its own text, which holds no dot. -/
theorem Context.ofName?_text {context : Context} (specified : context ≠ .unspecified) :
    ofName? context.text = some context ∧ '.' ∉ context.text.toList := by
  revert specified
  cases context <;> decide

/-- Each type is named by its own text, which holds no dot and no colon. -/
theorem DataType.ofName?_text {type : DataType} (specified : type ≠ .unspecified) :
    ofName? type.text = some type ∧ '.' ∉ type.text.toList ∧ ':' ∉ type.text.toList := by
  revert specified
  cases type <;> decide

namespace Key

theorem splitContext_append {head : List Char} (first : '.' ∉ head) (rest : List Char) :
    splitContext (head ++ '.' :: rest) =
      (Context.ofName? (String.ofList head)).elim
        (.unspecified, head ++ '.' :: rest) (·, rest) := by
  rw [splitContext, Text.cutAt?_append first]
  dsimp only
  cases Context.ofName? (String.ofList head) <;> rfl

theorem splitContext_undotted {text : List Char} (undotted : '.' ∉ text) :
    splitContext text = (.unspecified, text) := by
  rw [splitContext, Text.cutAt?_eq_none.2 undotted]

/-- A text has a context before its first dot, or none. -/
theorem splitContext_cases (text : List Char) :
    (∃ context head rest, text = head ++ '.' :: rest ∧ '.' ∉ head ∧
      Context.ofName? (String.ofList head) = some context ∧ splitContext text = (context, rest)) ∨
    splitContext text = (.unspecified, text) := by
  by_cases dotted : '.' ∈ text
  · cases cut : Text.cutAt? (· == '.') text with
    | none => exact absurd dotted (Text.cutAt?_eq_none.1 cut)
    | some pair =>
      obtain ⟨rfl, first⟩ := Text.cutAt?_some cut
      rw [splitContext_append first]
      cases found : Context.ofName? (String.ofList pair.1) with
      | none => exact .inr rfl
      | some context => exact .inl ⟨context, pair.1, pair.2, rfl, first, found, rfl⟩
  · exact .inr (splitContext_undotted dotted)

theorem splitType_append {stem tail : List Char} (last : ':' ∉ tail) :
    splitType (stem ++ ':' :: tail) =
      (DataType.ofName? (String.ofList tail)).elim (.unspecified, stem ++ ':' :: tail)
        (·, stem) := by
  rw [splitType, Text.cutAtLast?_append last]
  dsimp only
  cases DataType.ofName? (String.ofList tail) <;> rfl

/-- A text has a type after its last colon, or none. -/
theorem splitType_cases (text : List Char) :
    (∃ type stem tail, text = stem ++ ':' :: tail ∧ ':' ∉ tail ∧
      DataType.ofName? (String.ofList tail) = some type ∧ splitType text = (type, stem)) ∨
    splitType text = (.unspecified, text) := by
  cases cut : Text.cutAtLast? (· == ':') text with
  | none =>
    refine .inr ?_
    rw [splitType, cut]
  | some pair =>
    obtain ⟨rfl, last⟩ := Text.cutAtLast?_some cut
    rw [splitType_append last]
    cases found : DataType.ofName? (String.ofList pair.2) with
    | none => exact .inr rfl
    | some type => exact .inl ⟨type, pair.1, pair.2, rfl, last, found, rfl⟩

/-- Another type after the last colon brings no context. -/
theorem splitContext_retype {stem tail other : List Char} (undotted : '.' ∉ other)
    (none : splitContext (stem ++ ':' :: tail) = (.unspecified, stem ++ ':' :: tail)) :
    splitContext (stem ++ ':' :: other) = (.unspecified, stem ++ ':' :: other) := by
  cases cut : Text.cutAt? (· == '.') stem with
  | none =>
    have stemUndotted := Text.cutAt?_eq_none.1 cut
    exact splitContext_undotted (by simp [stemUndotted, undotted])
  | some pair =>
    obtain ⟨rfl, first⟩ := Text.cutAt?_some cut
    rw [List.append_assoc, List.cons_append, splitContext_append first] at none ⊢
    cases found : Context.ofName? (String.ofList pair.1) with
    | none => rfl
    | some context =>
      rw [found] at none
      exact absurd (congrArg Prod.fst none) (Context.ofName?_ne_unspecified found)

theorem ofText_eq {text : String} {context : Context} {rest name : List Char} {type : DataType}
    (contextOf : splitContext text.toList = (context, rest))
    (typeOf : splitType rest = (type, name)) :
    ofText text = { name := String.ofList name, context, type } := by
  simp only [ofText, contextOf, typeOf]

theorem toText_toList (name : List Char) (context : Context) (type : DataType) :
    (toText { name := String.ofList name, context, type }).toList =
      (if context.isSpecified then context.text.toList ++ ['.'] else []) ++ name ++
        if type.isSpecified then ':' :: type.text.toList else [] := by
  rw [toText, String.toList_append, String.toList_append, String.toList_ofList]
  split <;> split <;> simp

theorem isSpecified_context {context : Context} (specified : context ≠ .unspecified) :
    context.isSpecified = true := by
  simpa [Context.isSpecified] using specified

theorem isSpecified_type {type : DataType} (specified : type ≠ .unspecified) :
    type.isSpecified = true := by
  simpa [DataType.isSpecified] using specified

/-- A text in which a type after the last colon may have got its own name. -/
inductive Retyped : List Char → List Char → Prop
  | same {text : List Char} : Retyped text text
  | type {stem tail : List Char} {type : DataType} :
      DataType.ofName? (String.ofList tail) = some type →
      Retyped (stem ++ ':' :: tail) (stem ++ ':' :: type.text.toList)

/-- How the text of a field is made from the text that named it: a context before the first dot and
a type after the last colon get their own names. -/
inductive Renamed : List Char → List Char → Prop
  | plain {text other : List Char} : Retyped text other → Renamed text other
  | context {head text other : List Char} {context : Context} : '.' ∉ head →
      Context.ofName? (String.ofList head) = some context → Retyped text other →
      Renamed (head ++ '.' :: text) (context.text.toList ++ '.' :: other)

/-- The text of a name and its type: it has the same name and type, and no context if there was
none. -/
theorem splitType_retyped (text : List Char) :
    ∃ type name other, splitType text = (type, name) ∧ splitType other = (type, name) ∧
      Retyped text other ∧
      other = name ++ (if type.isSpecified then ':' :: type.text.toList else []) ∧
      (splitContext text = (.unspecified, text) → splitContext other = (.unspecified, other)) := by
  rcases splitType_cases text with ⟨type, stem, tail, rfl, last, found, typed⟩ | untyped
  · have specified := DataType.ofName?_ne_unspecified found
    obtain ⟨named, undotted, uncoloned⟩ := DataType.ofName?_text specified
    refine ⟨type, stem, stem ++ ':' :: type.text.toList, typed, ?_, .type found, ?_,
      splitContext_retype undotted⟩
    · rw [splitType_append uncoloned, String.ofList_toList, named]
      rfl
    · rw [isSpecified_type specified, if_pos rfl]
  · refine ⟨.unspecified, text, text, untyped, untyped, .same, ?_, id⟩
    exact (List.append_nil text).symm

/-- The text of a field names the same field, and differs from the text that named it only in the
names of its context and its type. -/
theorem toText_renamed (text : String) :
    Renamed text.toList (ofText text).toText.toList ∧
      ofText (ofText text).toText = ofText text := by
  rcases splitContext_cases text.toList with ⟨context, head, rest, split, first, found, contextOf⟩ |
    contextOf
  · obtain ⟨type, name, other, typeOf, otherType, retyped, same, _⟩ := splitType_retyped rest
    have specified := Context.ofName?_ne_unspecified found
    obtain ⟨named, undotted⟩ := Context.ofName?_text specified
    have shown : (ofText text).toText.toList = context.text.toList ++ '.' :: other := by
      rw [ofText_eq contextOf typeOf, toText_toList, isSpecified_context specified, if_pos rfl,
        same]
      simp
    refine ⟨?_, ?_⟩
    · rw [shown, split]
      exact .context first found retyped
    · rw [ofText_eq contextOf typeOf]
      rw [ofText_eq contextOf typeOf] at shown
      have again := splitContext_append undotted other
      rw [← shown, String.ofList_toList, named] at again
      exact ofText_eq again otherType
  · obtain ⟨type, name, other, typeOf, otherType, retyped, same, still⟩ :=
      splitType_retyped text.toList
    have shown : (ofText text).toText.toList = other := by
      rw [ofText_eq contextOf typeOf, toText_toList, same]
      rfl
    refine ⟨?_, ?_⟩
    · rw [shown]
      exact .plain retyped
    · rw [ofText_eq contextOf typeOf] at shown ⊢
      refine ofText_eq ?_ otherType
      rw [shown, still contextOf]

end Key

end TelemetryQuery.Field
