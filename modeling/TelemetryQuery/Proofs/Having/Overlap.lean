import TelemetryQuery.Proofs.Having.Pattern
/- Where the pattern of a reference is not found: in gaps, marks, numbers and words, and in
references that are not longer. -/
namespace TelemetryQuery.Having

/-- A character that no word goes on with. -/
def isEdge (c : Char) : Bool :=
  Text.isBlank c || c ∈ markChars || c = '\x00'

theorem isEdge_cases {c : Char} (edge : isEdge c = true) :
    continuesIdentifier c = false ∧ Text.isWord c = false := by
  rw [isEdge, Bool.or_eq_true, Bool.or_eq_true, decide_eq_true_eq, decide_eq_true_eq] at edge
  rcases edge with (blank | mark) | rfl
  · exact ⟨continuesIdentifier_blank blank, Text.isWord_blank blank⟩
  · have all : markChars.all (fun c => !(c.isAlpha || c.isDigit || c == '_')) = true := by decide
    refine ⟨continuesIdentifier_mark mark, ?_⟩
    rw [Text.isWord_ascii (ascii_of_mark mark)]
    simpa using mark_all all mark
  · rw [continuesIdentifier_ascii (by decide), Text.isWord_ascii (by decide)]
    decide

/-- Text that no word goes on with. -/
def Edge (rest : List Char) : Prop :=
  ∀ c ∈ rest.head?, isEdge c = true

theorem Edge.not_word {rest : List Char} (edge : Edge rest) :
    rest.head?.any Text.isWord = false := by
  cases rest with
  | nil => rfl
  | cons c rest => exact (isEdge_cases (edge c rfl)).2

/-- Text that opens no bracket after its blanks. -/
def Unopened (rest : List Char) : Prop :=
  (rest.dropWhile Text.isBlank).head? ≠ some '('

theorem not_unopened {gap rest : List Char} (blank : Blank gap) :
    ¬Unopened (gap ++ '(' :: rest) := by
  rw [Unopened, List.dropWhile_append_of_pos blank]
  simp [List.dropWhile_cons_of_neg (show ¬Text.isBlank '(' = true by decide)]

/-- The pattern of a key is found nowhere in a chunk of text. -/
def Inert (key : Operand) (before : Option Char) (chunk rest : List Char) : Prop :=
  ∀ start c more, chunk = start ++ c :: more →
    matchLength? (referencePattern key.render.toList) (start.getLast?.or before)
      (c :: more ++ rest) = none

variable {key : Operand} {before : Option Char} {chunk rest : List Char}

/-- The pattern of a key is found only where a word starts, and starts as the key does. -/
theorem found_starts (shaped : key.isShaped = true) {text : List Char} {n : Nat}
    (found : matchLength? (referencePattern key.render.toList) before text = some n) :
    before.any Text.isWord = false ∧ text.head?.any startsIdentifier = true ∧
      text.head? = key.render.toList.head? := by
  cases key with
  | identifier name =>
    obtain ⟨apart, rest, rfl, _⟩ := found_identifier shaped found
    obtain ⟨c, more, split, starts⟩ := (isName_chars shaped).cons
    rw [Operand.render, split]
    exact ⟨apart, starts, rfl⟩
  | call name arguments =>
    obtain ⟨apart, taken, rest, rfl, matched⟩ := found_call shaped found
    rw [Operand.isShaped, Bool.and_eq_true] at shaped
    have chars := isName_chars shaped.1
    obtain ⟨c, more, split, starts⟩ := chars.cons
    rw [Operand.words, tight_name, tight_opening] at matched
    obtain ⟨gap, tail, _, rfl⟩ := matched.of_call chars.continues
    simp only [Operand.render, String.toList_append, split]
    exact ⟨apart, starts, rfl⟩
  | _ => cases shaped

theorem inert_of_forall (none : ∀ start c more n, chunk = start ++ c :: more →
    matchLength? (referencePattern key.render.toList) (start.getLast?.or before)
      (c :: more ++ rest) = some n → False) : Inert key before chunk rest := by
  intro start c more split
  rw [Option.eq_none_iff_forall_ne_some]
  exact fun n found => none start c more n split found

/-- A chunk in which no word starts. -/
theorem inert_of_wordless (shaped : key.isShaped = true)
    (wordless : ∀ start c more, chunk = start ++ c :: more → startsIdentifier c = true →
      c ∈ key.render.toList.head? → (start.getLast?.or before).any Text.isWord = true) :
    Inert key before chunk rest := by
  refine inert_of_forall fun start c more n split found => ?_
  obtain ⟨apart, starts, head⟩ := found_starts shaped found
  rw [wordless start c more split starts head.symm] at apart
  cases apart

theorem inert_of_no_letter (shaped : key.isShaped = true)
    (none : ∀ c ∈ chunk, startsIdentifier c = false) : Inert key before chunk rest := by
  refine inert_of_wordless shaped fun start c more split starts _ => ?_
  have other := none c (by rw [split]; simp)
  rw [starts] at other
  cases other

/-- A name that a run of characters and text at its edge start with is in the run. -/
theorem name_within {run name other : List Char}
    (continues : ∀ c ∈ name, continuesIdentifier c = true) (edge : Edge rest)
    (same : run ++ rest = name ++ other) : ∃ more, run = name ++ more ∧ other = more ++ rest := by
  rcases List.append_eq_append_iff.1 same with ⟨more, rfl, tail⟩ | within
  · cases more with
    | nil => exact ⟨[], by simp, by simpa using tail.symm⟩
    | cons c more =>
      have goesOn := continues c (by simp)
      rw [(isEdge_cases (edge c (by rw [tail]; rfl))).1] at goesOn
      cases goesOn
  · exact within

theorem edge_opening {gap : List Char} (blank : Blank gap) (text : List Char) :
    Edge (gap ++ '(' :: text) := by
  intro c head
  cases gap with
  | nil =>
    obtain rfl := Option.some.inj head
    decide
  | cons d gap =>
    obtain rfl := Option.some.inj head
    rw [isEdge, blank d List.mem_cons_self]
    rfl

theorem last_word {start : List Char} (nonempty : start ≠ [])
    (words : ∀ c ∈ start, Text.isWord c = true) :
    (start.getLast?.or before).any Text.isWord = true := by
  rw [List.getLast?_eq_some_getLast nonempty]
  exact words _ (List.getLast_mem nonempty)

/-- What follows the name where the pattern of a call is found. -/
theorem found_opening {name : String} {arguments : List Operand}
    (shaped : (Operand.call name arguments).isShaped = true) {text : List Char} {n : Nat}
    (found : matchLength? (referencePattern (Operand.call name arguments).render.toList) before
      text = some n) :
    ∃ gap tail, Blank gap ∧ text = name.toList ++ (gap ++ '(' :: tail) := by
  obtain ⟨_, taken, rest, rfl, matched⟩ := found_call shaped found
  rw [Operand.isShaped, Bool.and_eq_true] at shaped
  rw [Operand.words, tight_name, tight_opening] at matched
  obtain ⟨gap, tail, blank, rfl⟩ := matched.of_call (isName_chars shaped.1).continues
  exact ⟨gap, tail ++ rest, blank, by simp⟩

/-- The pattern of a key is not found at a word that is not the key and opens no call of it. -/
theorem inert_word (shaped : key.isShaped = true) (words : ∀ c ∈ chunk, Text.isWord c = true)
    (edge : Edge rest) (other : key.render.toList ≠ chunk)
    (callee : Kind.ofWord (String.ofList chunk) = .identifier → Unopened rest) :
    Inert key before chunk rest := by
  refine inert_of_forall fun start c more n split found => ?_
  by_cases first : start = []
  · subst first
    rw [List.nil_append] at split
    rw [← split] at found
    cases key with
    | identifier name =>
      obtain ⟨_, after, same, ends⟩ := found_identifier shaped found
      obtain ⟨tail, inside, rfl⟩ := name_within (isName_chars shaped).continues edge same
      cases tail with
      | nil => exact other (by rw [inside, List.append_nil]; rfl)
      | cons d tail =>
        have stops := ends fun e mem => words e (by rw [inside]; exact List.mem_append_left _ mem)
        have goesOn := words d (by rw [inside]; simp)
        rw [List.cons_append, List.head?_cons, Option.any_some, goesOn] at stops
        cases stops
    | call name arguments =>
      obtain ⟨gap, after, blank, same⟩ := found_opening shaped found
      rw [Operand.isShaped, Bool.and_eq_true] at shaped
      obtain ⟨tail, inside, opening⟩ := name_within (isName_chars shaped.1).continues edge same
      cases tail with
      | nil =>
        rw [List.append_nil] at inside
        rw [List.nil_append] at opening
        have named : Kind.ofWord (String.ofList chunk) = .identifier := by
          rw [inside, String.ofList_toList]
          simp only [isName, Bool.and_eq_true, decide_eq_true_eq] at shaped
          exact shaped.1.2
        rw [← opening] at callee
        exact not_unopened blank (callee named)
      | cons d tail =>
        have edge := edge_opening blank after d (by rw [opening]; rfl)
        have goesOn := words d (by rw [inside]; simp)
        rw [(isEdge_cases edge).2] at goesOn
        cases goesOn
    | _ => cases shaped
  · have apart := (found_starts shaped found).1
    rw [last_word first fun d mem => words d (by rw [split]; exact List.mem_append_left _ mem)]
      at apart
    cases apart

/-- The pattern of a key is not found in another name that is not longer. -/
theorem inert_name (shaped : key.isShaped = true)
    (continues : ∀ c ∈ chunk, continuesIdentifier c = true) (edge : Edge rest)
    (unopened : Unopened rest) (other : key.render.toList ≠ chunk)
    (size : chunk.length ≤ key.render.toList.length) : Inert key before chunk rest := by
  refine inert_of_forall fun start c more n split found => ?_
  cases key with
  | identifier name =>
    obtain ⟨_, after, same, _⟩ := found_identifier shaped found
    obtain ⟨tail, inside, _⟩ := name_within (isName_chars shaped).continues edge same
    rw [inside] at split
    have lengths := congrArg List.length split
    rw [Operand.render] at size other
    simp only [List.length_append] at lengths
    obtain rfl := List.length_eq_zero_iff.1 (show start.length = 0 by omega)
    obtain rfl := List.length_eq_zero_iff.1 (show tail.length = 0 by omega)
    exact other (by rw [split, List.append_nil, List.nil_append])
  | call name arguments =>
    obtain ⟨gap, after, blank, same⟩ := found_opening shaped found
    rw [Operand.isShaped, Bool.and_eq_true] at shaped
    obtain ⟨tail, inside, opening⟩ := name_within (isName_chars shaped.1).continues edge same
    cases tail with
    | nil =>
      rw [List.nil_append] at opening
      rw [← opening] at unopened
      exact not_unopened blank unopened
    | cons d tail =>
      have edge := edge_opening blank after d (by rw [opening]; rfl)
      have goesOn := continues d (by rw [split, inside]; simp)
      rw [(isEdge_cases edge).1] at goesOn
      cases goesOn
  | _ => cases shaped

theorem WrittenArguments.closed : {operands : List Operand} → {text : List Char} →
    WrittenArguments operands text → ∃ start, text = start ++ [')']
  | _, _, @WrittenArguments.none gap _ => ⟨gap, rfl⟩
  | _, _, @WrittenArguments.last _ gap text after _ _ _ => ⟨gap ++ (text ++ after), by simp⟩
  | _, _, @WrittenArguments.more _ _ gap text after _ _ _ _ _ others => by
    obtain ⟨start, rfl⟩ := others.closed
    exact ⟨gap ++ (text ++ (after ++ ',' :: start)), by simp⟩

theorem Written.closed {name : String} {arguments : List Operand} {text : List Char}
    (written : Written (.call name arguments) text) : ∃ start, text = start ++ [')'] := by
  cases written with
  | @call _ _ gap _ _ inner =>
    obtain ⟨start, rfl⟩ := inner.closed
    exact ⟨name.toList ++ (gap ++ '(' :: start), by simp⟩

/-- A part of a text that is closed by a bracket is closed by it too. -/
theorem closes_end {text start tail closed : List Char} (split : text = start ++ tail)
    (nonempty : tail ≠ []) (ends : text = closed ++ [')']) : ')' ∈ tail := by
  have last : tail.getLast? = some ')' := by
    rw [← List.getLast?_append_of_ne_nil start nonempty, ← split, ends]
    simp
  exact List.mem_of_getLast? last

theorem mem_strip {c : Char} {text : List Char} (mem : c ∈ text) (solid : Text.isBlank c = false) :
    c ∈ strip text := by
  rw [strip, List.mem_filter]
  exact ⟨mem, by rw [solid]; rfl⟩

/-- The pattern of a name is not found in a call that is not longer. -/
theorem inert_call_of_name {name callee : String} {arguments : List Operand}
    (shaped : isName name = true) (callShaped : (Operand.call callee arguments).isShaped = true)
    (written : Written (.call callee arguments) chunk)
    (size : (Operand.call callee arguments).render.toList.length ≤ name.toList.length) :
    Inert (.identifier name) before chunk rest := by
  refine inert_of_forall fun start c more n split found => ?_
  have continues := (isName_chars shaped).continues
  obtain ⟨closed, ends⟩ := written.closed
  obtain ⟨_, after, same, _⟩ := found_identifier shaped found
  have noBracket := notMem_of_continues (c := ')') continues (by decide)
  rcases List.append_eq_append_iff.1 same with ⟨tail, inside, _⟩ | ⟨tail, inside, _⟩
  · refine noBracket ?_
    rw [inside]
    exact List.mem_append_left _ (closes_end split (List.cons_ne_nil c more) ends)
  · have bracket : ')' ∈ tail := by
      have mem := closes_end split (List.cons_ne_nil c more) ends
      rw [inside, List.mem_append] at mem
      exact mem.resolve_left noBracket
    have nonempty := List.length_pos_of_mem (mem_strip bracket (by decide))
    have stripped := written.strip_eq callShaped
    rw [split, inside, strip_append, strip_append, strip_solid (solid_of_continues continues)]
      at stripped
    have lengths := congrArg List.length stripped
    have total := Operand.length_render _ callShaped
    simp only [List.length_append] at lengths
    omega

theorem solid_tight (shaped : key.isShaped = true) (c : Char) (mem : c ∈ tight key.words) :
    Text.isBlank c = false := by
  rw [← Operand.strip_render key (Operand.lexical_of_isShaped key shaped)] at mem
  simpa using (List.mem_filter.1 mem).2

theorem argumentWords_closed : (operands : List Operand) →
    ∃ words, argumentWords operands = words ++ [.fixed .rparen]
  | [] => ⟨[], by rw [argumentWords]; rfl⟩
  | [operand] => ⟨operand.words, by rw [argumentWords]⟩
  | operand :: second :: rest => by
    obtain ⟨words, closed⟩ := argumentWords_closed (second :: rest)
    refine ⟨operand.words ++ .fixed .comma :: words, ?_⟩
    rw [argumentWords_cons _ (List.cons_ne_nil second rest), closed, List.append_assoc,
      List.cons_append]

/-- A match of a call ends with its bracket. -/
theorem Matches.closed {name : String} {arguments : List Operand} {taken : List Char}
    (matched : Matches ((tight (Operand.call name arguments).words).flatMap callPieces) taken) :
    ∃ start, taken = start ++ [')'] := by
  obtain ⟨words, closed⟩ := argumentWords_closed arguments
  rw [Operand.words, closed, ← List.cons_append, ← List.cons_append, tight_append] at matched
  exact matched.of_closed

/-- The pattern of a call is not found in another call that is not longer. -/
theorem inert_call_of_call {name callee : String} {arguments operands : List Operand}
    (shaped : (Operand.call name operands).isShaped = true)
    (callShaped : (Operand.call callee arguments).isShaped = true)
    (written : Written (.call callee arguments) chunk)
    (other : Operand.call name operands ≠ .call callee arguments)
    (size : (Operand.call callee arguments).render.toList.length ≤
      (Operand.call name operands).render.toList.length) :
    Inert (.call name operands) before chunk rest := by
  refine inert_of_forall fun start c more n split found => ?_
  obtain ⟨closed, ends⟩ := written.closed
  obtain ⟨_, taken, after, same, matched⟩ := found_call shaped found
  have whole := matched.strip_eq (solid_tight shaped)
  have stripped := written.strip_eq callShaped
  rw [split, strip_append] at stripped
  -- the match would make the call as long as the key, and so the key itself
  have within : ∀ tail, c :: more = taken ++ tail → False := by
    intro tail inside
    rw [inside, strip_append, whole] at stripped
    have keyLength := Operand.length_render _ shaped
    have callLength := Operand.length_render _ callShaped
    rw [← stripped] at callLength
    simp only [List.length_append, List.count_append] at callLength
    have noStart := List.length_eq_zero_iff.1 (show (strip start).length = 0 by omega)
    have noTail := List.length_eq_zero_iff.1 (show (strip tail).length = 0 by omega)
    rw [noStart, noTail, List.nil_append] at stripped
    have nothing : FollowsArgument [] := by simp [FollowsArgument]
    exact other (Operand.tight_unique _ (Operand.lexical_of_isShaped _ shaped) callShaped
      nothing.followsOperand nothing (by rw [stripped, List.append_nil])).1
  rcases List.append_eq_append_iff.1 same with ⟨tail, inside, _⟩ | ⟨tail, inside, _⟩
  · by_cases nonempty : tail = []
    · exact within [] (by rw [inside, nonempty, List.append_nil, List.append_nil])
    · -- the match would go on after brackets that the key has closed
      obtain ⟨start', closes⟩ := matched.closed
      have bracket := closes_end inside nonempty closes
      have more' := List.ne_nil_of_mem (mem_strip bracket (by decide))
      have before' := closes_end split (List.cons_ne_nil c more) ends
      rw [inside, strip_append] at whole
      have opened := Operand.depth_inside shaped whole.symm more' (mem_strip before' (by decide))
      have closedAll := Operand.depth_end callShaped stripped.symm
      omega
  · exact within tail inside

end TelemetryQuery.Having
