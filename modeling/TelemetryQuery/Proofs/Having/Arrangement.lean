import TelemetryQuery.Proofs.Having.Located
/- The lexemes of a condition on results arranged as slots, a slot for each reference. -/
namespace TelemetryQuery.Having

variable {lexemes : List Lexeme} {pieces : List Piece} {piece : Piece}

/-- The lexeme that a spot is in the end, with a column in place of a reference. -/
def Spot.lexeme (columns : List String) : Spot → Lexeme
  | ⟨gap, .mark kind chars⟩ => ⟨gap, kind, chars⟩
  | ⟨gap, .number chars⟩ => ⟨gap, .number, chars⟩
  | ⟨gap, .word chars⟩ => ⟨gap, .ofWord (String.ofList chars), chars⟩
  | ⟨gap, .reference i _ raw⟩ => ⟨gap, .identifier, filled columns i raw⟩

/-- A name that can be a column: a word without a point. -/
def isColumn (name : String) : Bool :=
  isName name && !name.toList.contains '.'

/-- A word without a point, reserved or not. -/
structure IsTarget (name : String) : Prop where
  chars : NameChars name.toList
  pointless : '.' ∉ name.toList

theorem isColumn_iff {name : String} :
    isColumn name = true ↔ IsTarget name ∧ Kind.ofWord name = .identifier := by
  rw [isColumn, Bool.and_eq_true, Bool.not_eq_true', List.contains_eq_mem,
    decide_eq_false_iff_not]
  constructor
  · rintro ⟨named, pointless⟩
    exact ⟨⟨isName_chars named, pointless⟩, isName_kind named⟩
  · rintro ⟨⟨chars, pointless⟩, kind⟩
    exact ⟨isName_of_chars chars kind, pointless⟩

theorem isName_of_isColumn {name : String} (column : isColumn name = true) :
    isName name = true := by
  obtain ⟨target, kind⟩ := isColumn_iff.1 column
  exact isName_of_chars target.chars kind

/-- A replacement that puts their columns in place of the keys that stand in a text. -/
structure Renames (table : List (String × String)) (text : List Char) (f : Operand → Operand) :
    Prop where
  key : ∀ {i : Nat} {operand : Operand} {column : String}, operand.isShaped = true →
    strip operand.render.toList <:+: strip text → table[i]? = some (operand.render, column) →
    f operand = .identifier column
  other : ∀ {name : String}, (∀ entry ∈ table, entry.1 ≠ name) →
    f (.identifier name) = .identifier name

/-- References are keys of a table or columns, and what stands between them is no name. -/
def Piece.Placed (table : List (String × String)) : Piece → Prop
  | between word => word.kind ≠ .identifier
  | reference operand =>
    operand.isShaped = true ∧ (∃ i : Nat, table[i]?.map (·.1) = some operand.render) ∨
      ∃ name, operand = .identifier name ∧ isColumn name = true ∧ ∀ entry ∈ table, entry.1 ≠ name

/-- Text in which no word follows a call directly. -/
def CallsApart (text : List Char) : Prop :=
  ∀ name arguments raw c, (Operand.call name arguments).isShaped = true →
    Written (.call name arguments) raw → raw ++ [c] <:+: text → startsIdentifier c = false

/-- Lexemes of a text that are the words of some pieces. -/
structure Readable (table : List (String × String)) (text ending : List Char)
    (lexemes : List Lexeme) (pieces : List Piece) : Prop where
  laid : Laid ending lexemes
  within : lay ending lexemes <:+: text
  unquoted : Unquoted (lay ending lexemes)
  numbers : ∀ lexeme ∈ lexemes, lexeme.kind = .number →
    ∀ entry ∈ table, Clear lexeme.chars entry.1
  words : lexemes.map Lexeme.word = wordsOf pieces
  linked : Linked pieces
  placed : ∀ piece ∈ pieces, piece.Placed table

/-- Whether a slot may stand after an operand: a mark but for a bracket that opens, or a word that
joins conditions. -/
def Slot.joins : Slot → Bool
  | mark kind _ => kind ≠ .lparen
  | number _ => false
  | word chars => Kind.ofWord (String.ofList chars) ∈ [.and, .or]
  | reference .. => false

theorem Slot.not_joins {slot : Slot} (reference : slot.isReference = true) :
    slot.joins = false := by
  cases slot with
  | reference => rfl
  | _ => cases reference

/-- The first lexemes of a condition as a spot. -/
structure Placement (table : List (String × String)) (f : Operand → Operand) (ending : List Char)
    (first second : List Lexeme) (piece : Piece) (pieces : List Piece) (spot : Spot) : Prop where
  text : lay [] first = spot.gap ++ spot.slot.shown asWritten
  blank : Blank spot.gap
  proper : spot.slot.Proper table
  stops : spot.slot.Stops (lay ending second)
  cut : spot.slot.Cut (lay ending second)
  word : [(spot.lexeme (table.map (·.2))).word] = (piece.replace f).words
  opens : spot.slot.joins = false → piece.opens = true
  ends : spot.slot.isNumber = true ∨ spot.slot.isReference = true → piece.ends = true
  spaced : CallsApart (lay ending (first ++ second)) → spot.slot.isReference = true →
    Edge (lay ending second)

/-- Spots whose references no name follows directly. -/
def Spaced (ending : List Char) : List Spot → Prop
  | [] => True
  | spot :: rest =>
    (spot.slot.isReference = true → Edge (shown asWritten ending rest)) ∧ Spaced ending rest

/-- Spots whose references have joining slots after them. -/
def Apart (spots : List Spot) : Prop :=
  spots.IsChain fun a b => a.slot.isReference = true → b.slot.joins = true

/-- The lexemes of a condition as spots. -/
structure Arrangement (table : List (String × String)) (f : Operand → Operand) (ending : List Char)
    (lexemes : List Lexeme) (pieces : List Piece) (spots : List Spot) : Prop where
  arranged : Arranged table ending spots
  text : shown asWritten ending spots = lay ending lexemes
  words : (spots.map (Spot.lexeme (table.map (·.2)))).map Lexeme.word =
    wordsOf (pieces.map (Piece.replace f))
  opens : ∀ spot ∈ spots.head?, spot.slot.joins = false → ∃ piece ∈ pieces.head?, piece.opens = true
  apart : Apart spots
  spaced : CallsApart (lay ending lexemes) → Spaced ending spots

variable {table : List (String × String)} {f : Operand → Operand} {text ending : List Char}

theorem callsApart_of_chain {text : List Char}
    (chain : text.IsChain fun a b => a = ')' → startsIdentifier b = false) : CallsApart text := by
  intro name arguments raw c _ written within
  obtain ⟨start, rfl⟩ := written.closed
  have last : [')', c] <:+: start ++ [')'] ++ [c] := ⟨start, [], by simp⟩
  have pair := chain.infix (last.trans within)
  exact (List.isChain_cons_cons.1 pair).1 rfl

theorem CallsApart.append {first second : List Char} (apart : CallsApart (first ++ second)) :
    CallsApart second := by
  intro name arguments raw c shaped written within
  exact apart name arguments raw c shaped written
    (within.trans (List.suffix_append first second).isInfix)

/-- After an operand a slot joins. -/
theorem Placement.joins {first second : List Lexeme} {spot : Spot} {spots : List Spot}
    (placement : Placement table f ending first second piece pieces spot)
    (linked : Linked (piece :: pieces))
    (opens : ∀ spot ∈ spots.head?, spot.slot.joins = false →
      ∃ piece ∈ pieces.head?, piece.opens = true)
    (operand : spot.slot.isNumber = true ∨ spot.slot.isReference = true) :
    ∀ next ∈ spots.head?, next.slot.joins = true := by
  intro next follows
  cases joins : next.slot.joins with
  | true => rfl
  | false =>
    obtain ⟨other, head, starts⟩ := opens next follows joins
    have closed := (List.isChain_cons.1 linked).1 other head (placement.ends operand)
    rw [closed] at starts
    cases starts

theorem Placement.arrangement {first second : List Lexeme} {spot : Spot} {spots : List Spot}
    (placement : Placement table f ending first second piece pieces spot)
    (linked : Linked (piece :: pieces)) (rest : Arrangement table f ending second pieces spots) :
    Arrangement table f ending (first ++ second) (piece :: pieces) (spot :: spots) where
  arranged := by
    refine ⟨⟨placement.blank, placement.proper, ?_, ?_, ?_⟩, rest.arranged⟩
    · rw [rest.text]
      exact placement.stops
    · rw [rest.text]
      exact placement.cut
    · intro number next follows
      have joins := placement.joins linked rest.opens (.inl number) next follows
      cases reference : next.slot.isReference with
      | false => rfl
      | true =>
        rw [Slot.not_joins reference] at joins
        cases joins
  text := by
    rw [shown, rest.text, lay_append, placement.text, List.append_assoc]
  words := by
    rw [List.map_cons, List.map_cons, List.map_cons, wordsOf_cons, ← placement.word, rest.words]
    rfl
  opens := by
    rintro _ ⟨⟩ other
    exact ⟨piece, rfl, placement.opens other⟩
  apart := List.isChain_cons.2
    ⟨fun next follows reference =>
      placement.joins linked rest.opens (.inr reference) next follows, rest.apart⟩
  spaced apart := by
    have within := apart
    rw [lay_append] at within
    refine ⟨fun reference => ?_, rest.spaced within.append⟩
    rw [rest.text]
    exact placement.spaced apart reference

theorem Readable.rest {first second : List Lexeme}
    (readable : Readable table text ending (first ++ second) (piece :: pieces))
    (words : first.map Lexeme.word = piece.words) : Readable table text ending second pieces where
  laid := readable.laid.append.1
  within := by
    have within := readable.within
    rw [lay_append] at within
    exact (List.suffix_append _ _).isInfix.trans within
  unquoted := by
    have unquoted := readable.unquoted
    rw [lay_append] at unquoted
    exact unquoted.append.2
  numbers lexeme mem := readable.numbers lexeme (List.mem_append_right first mem)
  words := by
    have all := readable.words
    rw [List.map_append, wordsOf_cons, words] at all
    exact List.append_cancel_left all
  linked := (List.isChain_cons.1 readable.linked).2
  placed := (List.forall_mem_cons.1 readable.placed).2

/-- Neither a name nor a number nor a bracket that opens follows the end of an operand. -/
theorem Readable.next (readable : Readable table text ending lexemes pieces)
    (closed : ∀ next ∈ pieces.head?, next.opens = false) : ∀ lexeme ∈ lexemes.head?,
      lexeme.kind ≠ .number ∧ lexeme.kind ≠ .identifier ∧ lexeme.kind ≠ .lparen := by
  have words := readable.words
  cases lexemes with
  | nil => simp
  | cons lexeme rest =>
    rintro _ ⟨⟩
    cases pieces with
    | nil => cases words
    | cons piece pieces =>
      have opens := closed piece rfl
      cases piece with
      | reference operand => cases opens
      | between word =>
        obtain rfl := (List.cons.inj words).1
        have placed := readable.placed _ List.mem_cons_self
        simp only [Piece.opens, List.mem_cons, decide_eq_false_iff_not, not_or] at opens
        exact ⟨opens.1, placed, opens.2.2.1⟩

theorem Readable.closed (readable : Readable table text ending lexemes (piece :: pieces))
    (ends : piece.ends = true) : ∀ next ∈ pieces.head?, next.opens = false :=
  fun next follows => (List.isChain_cons.1 readable.linked).1 next follows ends

/-- Where a name ends, no word goes on, and no bracket opens after an operand. -/
theorem Readable.stops (readable : Readable table text ending lexemes pieces)
    (closed : ∀ next ∈ pieces.head?, next.opens = false)
    (stops : (lay ending lexemes).head?.any continuesIdentifier = false) :
    Edge (lay ending lexemes) ∧ Unopened (lay ending lexemes) :=
  ⟨readable.laid.edge_of_stops readable.unquoted stops, readable.laid.unopened readable.unquoted
    fun lexeme head => (readable.next closed lexeme head).2.2⟩

/-- A key is no reserved word. -/
theorem render_ne_reserved {key : Operand} (shaped : key.isShaped = true) {chars : List Char}
    (continues : ∀ c ∈ chars, continuesIdentifier c = true)
    (reserved : Kind.ofWord (String.ofList chars) ≠ .identifier) : key.render.toList ≠ chars := by
  rintro rfl
  cases key with
  | identifier name =>
    rw [String.ofList_toList] at reserved
    exact reserved (isName_kind shaped)
  | call name arguments =>
    have opening : '(' ∈ (Operand.call name arguments).render.toList := by simp [Operand.render]
    have goesOn := continues _ opening
    rw [continuesIdentifier_mark (by decide)] at goesOn
    cases goesOn
  | _ => cases shaped

/-- A reserved word that does not join conditions starts one. -/
theorem opens_of_word {chars : List Char}
    (reserved : Kind.ofWord (String.ofList chars) ≠ .identifier)
    (other : (Slot.word chars).joins = false) :
    (Piece.between
      (.ofText (.ofWord (String.ofList chars)) (String.ofList chars))).opens = true := by
  have isWord := Kind.ofWord_isWord (String.ofList chars)
  rw [Slot.joins] at other
  rw [Piece.opens, Word.ofText_kind]
  generalize Kind.ofWord (String.ofList chars) = kind at reserved other isWord ⊢
  cases kind with
  | not | bool => rfl
  | and | or => cases other
  | identifier => exact absurd rfl reserved
  | _ => cases isWord

theorem Readable.placement_between {lexeme : Lexeme} {second : List Lexeme}
    (readable : Readable table text ending (lexeme :: second) (.between lexeme.word :: pieces))
    (keys : ∀ entry ∈ table, IsKey entry.1 ∨ Unseen text entry.1.toList) :
    ∃ spot, Placement table f ending [lexeme] second (.between lexeme.word) pieces spot := by
  obtain ⟨gap, kind, chars⟩ := lexeme
  have others : Readable table text ending second pieces :=
    (show Readable table text ending ([_] ++ second) _ from readable).rest rfl
  have notName : kind ≠ .identifier := readable.placed _ List.mem_cons_self
  obtain ⟨blank, _, token, _⟩ := readable.laid
  have takes : Takes chars (lay ending second) kind := tokenAt?_takes token
  have layout : lay [] [⟨gap, kind, chars⟩] = gap ++ chars := by simp [lay]
  cases takes with
  | mark _ mark =>
    refine ⟨⟨gap, .mark kind chars⟩, layout, blank, mark.chars, trivial, mark, rfl, ?_,
      fun operand => operand.elim nofun nofun, nofun⟩
    intro other
    obtain rfl : kind = .lparen := by simpa [Slot.joins] using other
    rfl
  | quoted mem quote =>
    refine absurd quote (readable.unquoted _ ?_)
    rw [lay]
    simp [mem]
  | number whole starts =>
    have clear := readable.numbers _ List.mem_cons_self rfl
    have closed := readable.closed rfl
    refine ⟨⟨gap, .number chars⟩, layout, blank, ⟨whole, starts, clear⟩, trivial,
      ?_, rfl, fun _ => rfl, fun _ => rfl, nofun⟩
    refine others.laid.endsNumber others.unquoted fun next head => ?_
    exact ⟨(others.next closed next head).1, (others.next closed next head).2.1⟩
  | word starts continues stops =>
    have letters : ∀ c ∈ chars, c.toNat < 128 ∧ c.isAlpha = true := by
      intro c mem
      exact isAlpha_of_reserved notName (by rw [String.toList_ofList]; exact mem)
    have edge := others.laid.edge_of_stops others.unquoted stops
    refine ⟨⟨gap, .word chars⟩, layout, blank, ⟨⟨starts, continues, fun c mem => (letters c mem).1⟩,
      ?_, ?_⟩, ⟨edge, fun name => absurd name notName⟩, trivial, rfl, opens_of_word notName,
      fun operand => operand.elim nofun nofun, nofun⟩
    · intro c mem
      rw [Text.isWord_ascii (letters c mem).1, (letters c mem).2]
      rfl
    · intro entry mem same
      rcases keys entry mem with ⟨key, shaped, render⟩ | unseen
      · rw [render] at same
        exact render_ne_reserved shaped continues notName same
      · rw [same] at unseen
        refine unseen.apart (List.IsInfix.filter _ (List.IsInfix.trans ?_ readable.within))
        exact ⟨gap, lay ending second, by rw [List.append_assoc]; rfl⟩

theorem isWord_of_isColumn {name : String} (column : isColumn name = true) {c : Char}
    (mem : c ∈ name.toList) : Text.isWord c = true := by
  obtain ⟨⟨chars, pointless⟩, _⟩ := isColumn_iff.1 column
  have ascii := chars.ascii c mem
  have continues := chars.continues c mem
  have point : (c == '.') = false := by
    rw [beq_eq_false_iff_ne]
    rintro rfl
    exact pointless mem
  rw [continuesIdentifier_ascii ascii, point, Bool.or_false] at continues
  rw [Text.isWord_ascii ascii, continues]

theorem Readable.placement_column {lexeme : Lexeme} {second : List Lexeme} {name : String}
    (renames : Renames table text f)
    (readable : Readable table text ending (lexeme :: second)
      (.reference (.identifier name) :: pieces))
    (word : lexeme.word = ⟨.identifier, name⟩) (column : isColumn name = true)
    (other : ∀ entry ∈ table, entry.1 ≠ name) :
    ∃ spot, Placement table f ending [lexeme] second (.reference (.identifier name)) pieces
      spot := by
  obtain ⟨gap, kind, chars⟩ := lexeme
  obtain rfl : kind = .identifier := congrArg Word.kind word
  obtain rfl : String.ofList chars = name := congrArg Word.text word
  have others : Readable table text ending second pieces :=
    (show Readable table text ending ([_] ++ second) _ from readable).rest
      (by rw [List.map_singleton, word]; rfl)
  obtain ⟨blank, _, token, _⟩ := readable.laid
  have named := isName_of_isColumn column
  have nameChars := isName_chars named
  rw [String.toList_ofList] at nameChars
  obtain ⟨edge, unopened⟩ :=
    others.stops (readable.closed rfl) (tokenAt?_takes token).identifier.2.2
  refine ⟨⟨gap, .word chars⟩, by simp [lay, Slot.shown], blank, ⟨nameChars, ?_, ?_⟩,
    ⟨edge, fun _ => unopened⟩, trivial, ?_, fun _ => rfl, fun _ => rfl, nofun⟩
  · intro c mem
    exact isWord_of_isColumn column (by rw [String.toList_ofList]; exact mem)
  · intro entry mem same
    exact other entry mem (String.toList_inj.1 (by rw [same, String.toList_ofList]))
  · rw [Piece.replace, renames.other other, Spot.lexeme, isName_kind named]
    rfl

theorem Readable.placement_key {first second : List Lexeme} {operand : Operand} {i : Nat}
    (renames : Renames table text f)
    (readable : Readable table text ending (first ++ second) (.reference operand :: pieces))
    (words : first.map Lexeme.word = operand.words) (shaped : operand.isShaped = true)
    (index : table[i]?.map (·.1) = some operand.render) :
    ∃ spot, Placement table f ending first second (.reference operand) pieces spot := by
  have others : Readable table text ending second pieces := readable.rest words
  have closed := readable.closed rfl
  have plain : Plain first := plain_of_words readable.laid.append.2 words
  obtain ⟨gap, raw, blank, layout, written⟩ := operand.written shaped plain words
  obtain ⟨⟨key, column⟩, found, same⟩ := Option.map_eq_some_iff.1 index
  obtain rfl : key = operand.render := same
  have name : ∀ name, operand = .identifier name →
      Edge (lay ending second) ∧ Unopened (lay ending second) := by
    rintro name rfl
    rw [Operand.words] at words
    obtain ⟨lexeme, rest, rfl, word, tail⟩ := List.map_eq_cons_iff.1 words
    obtain rfl := List.map_eq_nil_iff.1 tail
    obtain ⟨_, _, token, _⟩ := readable.laid
    have takes := tokenAt?_takes token
    rw [show lexeme.kind = .identifier from congrArg Word.kind word] at takes
    exact others.stops closed takes.identifier.2.2
  have stands : strip operand.render.toList <:+: strip text := by
    have within := readable.within
    rw [lay_append, layout] at within
    rw [Operand.strip_render _ (operand.lexical_of_isShaped shaped), ← written.strip_eq shaped]
    exact List.IsInfix.filter _ ((List.infix_append _ _ _).trans within)
  refine ⟨⟨gap, .reference i operand raw⟩, layout, blank, ⟨shaped, index, written⟩, name, trivial,
    ?_, fun _ => rfl, fun _ => rfl, fun apart _ => ?_⟩
  · rw [Piece.replace, renames.key shaped stands found, Spot.lexeme, filled, List.getElem?_map,
      found]
    simp [Lexeme.word, Word.ofText, Kind.isOpen, Piece.words, Operand.words]
  · cases operand with
    | identifier callee => exact (name callee rfl).1
    | call callee arguments =>
      refine others.laid.edge others.unquoted ?_ ?_
      · intro c head
        obtain ⟨more, rest⟩ := List.head?_eq_some_iff.1 head
        refine apart callee arguments raw c shaped written ⟨gap, more, ?_⟩
        rw [lay_append, layout, rest]
        simp
      · intro lexeme head number
        exact absurd number (others.next closed lexeme head).1
    | _ => cases shaped

/-- The lexemes of a condition can be arranged as spots, if its references are keys or columns. -/
theorem exists_arrangement (renames : Renames table text f)
    (keys : ∀ entry ∈ table, IsKey entry.1 ∨ Unseen text entry.1.toList)
    (readable : Readable table text ending lexemes pieces) :
    ∃ spots, Arrangement table f ending lexemes pieces spots := by
  induction pieces generalizing lexemes with
  | nil =>
    obtain rfl := List.map_eq_nil_iff.1 readable.words
    exact ⟨[], readable.laid, rfl, rfl, nofun, .nil, fun _ => trivial⟩
  | cons piece pieces ih =>
    obtain ⟨first, second, rfl, words, _⟩ := List.map_eq_append_iff.1 readable.words
    obtain ⟨spots, arrangement⟩ := ih (readable.rest words)
    have placed := readable.placed piece List.mem_cons_self
    obtain ⟨spot, placement⟩ :
        ∃ spot, Placement table f ending first second piece pieces spot := by
      cases piece with
      | between word =>
        obtain ⟨lexeme, none, rfl, rfl, tail⟩ := List.map_eq_cons_iff.1 words
        obtain rfl := List.map_eq_nil_iff.1 tail
        exact readable.placement_between keys
      | reference operand =>
        rcases placed with ⟨shaped, i, index⟩ | ⟨name, rfl, column, other⟩
        · exact readable.placement_key renames words shaped index
        · rw [Piece.words, Operand.words] at words
          obtain ⟨lexeme, none, rfl, word, tail⟩ := List.map_eq_cons_iff.1 words
          obtain rfl := List.map_eq_nil_iff.1 tail
          exact readable.placement_column renames word column other
    exact ⟨spot :: spots, placement.arrangement readable.linked arrangement⟩

end TelemetryQuery.Having
