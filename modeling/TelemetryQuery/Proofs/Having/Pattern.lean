import TelemetryQuery.Having.Substitution
import TelemetryQuery.Proofs.Having.Written
/- What the patterns of well-shaped references match. -/
namespace TelemetryQuery.Having

variable {c : Char} {text chars rest : List Char} {pattern : List PatternPiece} {n : Nat}
  {before : Option Char}

/-- The texts that a pattern may take, whatever stands around them. -/
inductive Matches : List PatternPiece → List Char → Prop
  | nil : Matches [] []
  | boundary {pattern : List PatternPiece} {text : List Char} : Matches pattern text →
      Matches (.boundary :: pattern) text
  | blanks {pattern : List PatternPiece} {gap text : List Char} : Blank gap →
      Matches pattern text → Matches (.blanks :: pattern) (gap ++ text)
  | char {pattern : List PatternPiece} {c : Char} {text : List Char} : Matches pattern text →
      Matches (.char c :: pattern) (c :: text)

theorem matches_of_matchLength? (found : matchLength? pattern before text = some n) :
    ∃ taken rest, text = taken ++ rest ∧ taken.length = n ∧ Matches pattern taken := by
  induction pattern generalizing before text n with
  | nil =>
    obtain rfl := Option.some.inj found
    exact ⟨[], text, rfl, rfl, .nil⟩
  | cons piece pattern ih =>
    cases piece with
    | boundary =>
      rw [matchLength?] at found
      split at found
      · obtain ⟨taken, rest, split, length, matched⟩ := ih found
        exact ⟨taken, rest, split, length, .boundary matched⟩
      · cases found
    | blanks =>
      obtain ⟨m, inner, rfl⟩ := Option.map_eq_some_iff.1 found
      obtain ⟨taken, rest, split, length, matched⟩ := ih inner
      have blank : Blank (text.takeWhile Text.isBlank) := List.all_eq_true.1 List.all_takeWhile
      refine ⟨text.takeWhile Text.isBlank ++ taken, rest, ?_, ?_, .blanks blank matched⟩
      · rw [List.append_assoc, ← split, List.takeWhile_append_dropWhile]
      · rw [List.length_append, length]
    | char c =>
      cases text with
      | nil => cases found
      | cons d text =>
        rw [matchLength?] at found
        split at found
        · next same =>
          subst same
          obtain ⟨m, inner, rfl⟩ := Option.map_eq_some_iff.1 found
          obtain ⟨taken, rest, rfl, length, matched⟩ := ih inner
          refine ⟨c :: taken, rest, rfl, ?_, .char matched⟩
          rw [List.length_cons]
          omega
        · cases found

theorem Matches.of_append {first second : List PatternPiece}
    (matched : Matches (first ++ second) text) :
    ∃ start rest, text = start ++ rest ∧ Matches first start ∧ Matches second rest := by
  induction first generalizing text with
  | nil => exact ⟨[], text, rfl, .nil, matched⟩
  | cons piece first ih =>
    cases matched with
    | boundary inner =>
      obtain ⟨start, rest, rfl, firstMatched, secondMatched⟩ := ih inner
      exact ⟨start, rest, rfl, .boundary firstMatched, secondMatched⟩
    | @blanks _ gap _ blank inner =>
      obtain ⟨start, rest, rfl, firstMatched, secondMatched⟩ := ih inner
      refine ⟨gap ++ start, rest, ?_, .blanks blank firstMatched, secondMatched⟩
      rw [List.append_assoc]
    | @char _ c _ inner =>
      obtain ⟨start, rest, rfl, firstMatched, secondMatched⟩ := ih inner
      exact ⟨c :: start, rest, rfl, .char firstMatched, secondMatched⟩

theorem Matches.of_chars (matched : Matches (chars.map .char) text) : text = chars := by
  induction chars generalizing text with
  | nil =>
    cases matched
    rfl
  | cons c chars ih =>
    cases matched with
    | char inner => rw [ih inner]

theorem Matches.of_callPieces (solid : Text.isBlank c = false)
    (matched : Matches (callPieces c) text) : strip text = [c] := by
  have single : strip [c] = [c] := strip_solid (by simpa using solid)
  revert matched
  fun_cases callPieces c with
  | case1 | case3 =>
    rintro (_ | _ | ⟨blank, _ | _ | _ | (_ | _ | ⟨after, ⟨⟩⟩)⟩)
    rw [strip_append, strip_blank blank, ← List.singleton_append, strip_append, single,
      strip_append, strip_blank after]
    rfl
  | case2 =>
    rintro (_ | _ | ⟨blank, _ | _ | _ | ⟨⟨⟩⟩⟩)
    rw [strip_append, strip_blank blank, single]
    rfl
  | case4 =>
    rintro (_ | _ | _ | ⟨⟨⟩⟩)
    exact single

/-- What the pieces of some characters take has these characters, and blanks. -/
theorem Matches.strip_eq (solid : ∀ c ∈ chars, Text.isBlank c = false)
    (matched : Matches (chars.flatMap callPieces) text) : strip text = chars := by
  induction chars generalizing text with
  | nil =>
    cases matched
    rfl
  | cons c chars ih =>
    obtain ⟨first, rest⟩ := List.forall_mem_cons.1 solid
    obtain ⟨start, tail, rfl, head, others⟩ := matched.of_append
    rw [strip_append, head.of_callPieces first, ih rest others]
    rfl

theorem flatMap_callPieces (continues : ∀ c ∈ chars, continuesIdentifier c = true) :
    chars.flatMap callPieces = chars.map .char := by
  induction chars with
  | nil => rfl
  | cons c chars ih =>
    obtain ⟨first, rest⟩ := List.forall_mem_cons.1 continues
    have single : callPieces c = [.char c] := by
      fun_cases callPieces c with
      | case1 | case2 | case3 => rw [continuesIdentifier_mark (by decide)] at first; cases first
      | case4 => rfl
    rw [List.flatMap_cons, single, ih rest]
    rfl

/-- A match of a call starts with its name and an opening bracket. -/
theorem Matches.of_call {name inner : List Char}
    (continues : ∀ c ∈ name, continuesIdentifier c = true)
    (matched : Matches ((name ++ '(' :: inner).flatMap callPieces) text) :
    ∃ gap rest, Blank gap ∧ text = name ++ (gap ++ '(' :: rest) := by
  rw [List.flatMap_append, flatMap_callPieces continues] at matched
  obtain ⟨_, _, rfl, first, second⟩ := matched.of_append
  obtain rfl := first.of_chars
  rw [List.flatMap_cons] at second
  obtain ⟨_, tail, rfl, opening, _⟩ := second.of_append
  cases opening with
  | @blanks _ gap _ blank opened =>
    cases opened with
    | @char _ _ after _ => exact ⟨gap, after ++ tail, blank, by simp⟩

/-- A match of what ends with a closing bracket ends with it. -/
theorem Matches.of_closed {inner : List Char}
    (matched : Matches ((inner ++ [')']).flatMap callPieces) text) :
    ∃ start, text = start ++ [')'] := by
  rw [List.flatMap_append] at matched
  obtain ⟨start, _, rfl, _, closing⟩ := matched.of_append
  cases closing with
  | @blanks _ gap _ blank closed =>
    cases closed with
    | char done =>
      cases done
      exact ⟨start ++ gap, by rw [List.append_assoc]⟩

theorem getLast?_cons_or (c : Char) (chars : List Char) (before : Option Char) :
    (c :: chars).getLast?.or before = chars.getLast?.or (some c) := by
  rw [List.getLast?_cons]
  cases chars.getLast? <;> rfl

theorem matchLength?_chars (chars : List Char) (pattern : List PatternPiece) (before : Option Char)
    (rest : List Char) :
    matchLength? (chars.map .char ++ pattern) before (chars ++ rest) =
      (matchLength? pattern (chars.getLast?.or before) rest).map (chars.length + ·) := by
  induction chars generalizing before with
  | nil => simp
  | cons c chars ih =>
    rw [List.map_cons, List.cons_append, List.cons_append, matchLength?, if_pos rfl, ih,
      getLast?_cons_or, Option.map_map]
    congr 1
    funext n
    simp only [Function.comp, List.length_cons]
    omega

theorem matchLength?_blanks {gap : List Char} (blank : Blank gap)
    (solid : rest.head?.any Text.isBlank = false) (pattern : List PatternPiece)
    (before : Option Char) :
    matchLength? (.blanks :: pattern) before (gap ++ rest) =
      (matchLength? pattern (gap.getLast?.or before) rest).map (gap.length + ·) := by
  have taken : (gap ++ rest).takeWhile Text.isBlank = gap := by
    rw [List.takeWhile_append_of_pos blank]
    cases rest with
    | nil => simp
    | cons c rest => rw [List.takeWhile_cons_of_neg (by simpa using solid), List.append_nil]
  have left : (gap ++ rest).dropWhile Text.isBlank = rest := by
    rw [List.dropWhile_append_of_pos blank]
    cases rest with
    | nil => rfl
    | cons c rest => exact List.dropWhile_cons_of_neg (by simpa using solid)
  rw [matchLength?, taken, left]

/-- Without boundaries it does not matter what stands before. -/
theorem matchLength?_before (free : .boundary ∉ pattern) (before other : Option Char)
    (text : List Char) : matchLength? pattern before text = matchLength? pattern other text := by
  induction pattern generalizing before other text with
  | nil => rfl
  | cons piece pattern ih =>
    rw [List.mem_cons, not_or] at free
    cases piece with
    | boundary => exact absurd rfl free.1
    | blanks =>
      rw [matchLength?, matchLength?]
      exact congrArg _ (ih free.2 _ _ _)
    | char c =>
      cases text with
      | nil => rfl
      | cons d text => rfl

theorem boundary_notMem_callPieces (chars : List Char) :
    .boundary ∉ chars.flatMap callPieces := by
  rw [List.mem_flatMap]
  rintro ⟨c, _, mem⟩
  revert mem
  fun_cases callPieces c <;> simp

theorem solid_mark (mark : c ∈ markChars) (rest : List Char) :
    (c :: rest).head?.any Text.isBlank = false := by
  have all : markChars.all (!Text.isBlank ·) = true := by decide
  rw [List.head?_cons, Option.any_some]
  simpa using mark_all all mark

theorem Written.starts {operand : Operand} (written : Written operand text)
    (shaped : operand.isShaped = true) :
    ∃ c more, text = c :: more ∧ startsIdentifier c = true := by
  cases written with
  | identifier => exact (isName_chars shaped).cons
  | call =>
    rw [Operand.isShaped, Bool.and_eq_true] at shaped
    obtain ⟨c, more, split, starts⟩ := (isName_chars shaped.1).cons
    rw [split]
    exact ⟨c, _, rfl, starts⟩

theorem Written.solid {operand : Operand} (written : Written operand text)
    (shaped : operand.isShaped = true) (rest : List Char) :
    (text ++ rest).head?.any Text.isBlank = false := by
  obtain ⟨c, more, rfl, starts⟩ := written.starts shaped
  rw [List.cons_append, List.head?_cons, Option.any_some]
  by_contra blank
  have stops := continuesIdentifier_blank (by simpa using blank)
  rw [continues_of_starts starts] at stops
  cases stops

/-- A mark of a call, with the blanks before it. -/
theorem matchLength?_mark {gap : List Char} (blank : Blank gap) (mark : c ∈ markChars)
    (found : matchLength? pattern (some c) rest = some n) (before : Option Char) :
    matchLength? (.blanks :: .char c :: pattern) before (gap ++ c :: rest) =
      some (gap.length + (1 + n)) := by
  rw [matchLength?_blanks blank (solid_mark mark rest), matchLength?, if_pos rfl, found]
  rfl

mutual

/-- The pieces of a reference take it, however it is written. -/
theorem Written.matchLength?_eq : {operand : Operand} → {text : List Char} →
    Written operand text → operand.isShaped = true → {pattern : List PatternPiece} →
    .boundary ∉ pattern → {rest : List Char} → {n : Nat} → (before : Option Char) →
    matchLength? pattern none rest = some n →
    matchLength? ((tight operand.words).flatMap callPieces ++ pattern) before (text ++ rest) =
      some (text.length + n)
  | .identifier name, _, .identifier, shaped, pattern, free, rest, n, before, found => by
    rw [Operand.words, tight_name, tight_nil, List.append_nil,
      flatMap_callPieces (isName_chars shaped).continues, matchLength?_chars,
      matchLength?_before free _ none, found]
    rfl
  | .call name arguments, _, @Written.call _ _ gap text blank inner, shaped, pattern, free,
      rest, n, before, found => by
    rw [Operand.isShaped, Bool.and_eq_true] at shaped
    have opened := inner.matchLength?_eq shaped.2 free (some '(') found
    have marked := matchLength?_mark blank (c := '(') (by decide) opened
      (name.toList.getLast?.or before)
    rw [Operand.words, tight_name, tight_opening, List.flatMap_append,
      flatMap_callPieces (isName_chars shaped.1).continues, List.flatMap_cons, List.append_assoc,
      List.append_assoc, List.append_assoc, List.append_assoc, matchLength?_chars]
    refine (congrArg (Option.map _) marked).trans (congrArg some ?_)
    simp only [List.length_append, List.length_cons]
    omega

theorem WrittenArguments.matchLength?_eq : {operands : List Operand} → {text : List Char} →
    WrittenArguments operands text → allShaped operands = true → {pattern : List PatternPiece} →
    .boundary ∉ pattern → {rest : List Char} → {n : Nat} → (before : Option Char) →
    matchLength? pattern none rest = some n →
    matchLength? (.blanks :: ((tight (argumentWords operands)).flatMap callPieces ++ pattern))
      before (text ++ rest) = some (text.length + n)
  | [], _, @WrittenArguments.none gap blank, _, pattern, free, rest, n, before, found => by
    have closed := matchLength?_mark blank_nil (c := ')') (by decide)
      ((matchLength?_before free _ _ rest).trans found) (gap.getLast?.or before)
    rw [argumentWords, tight_closing, tight_nil, List.append_assoc, List.singleton_append,
      matchLength?_blanks blank (solid_mark (by decide) rest)]
    refine (congrArg (Option.map _) closed).trans (congrArg some ?_)
    simp only [List.length_append, List.length_cons, List.length_nil]
    omega
  | [operand], _, @WrittenArguments.last _ gap text after blank inner afterBlank, shaped, pattern,
      free, rest, n, before, found => by
    rw [allShaped, Bool.and_eq_true] at shaped
    have closed := matchLength?_mark afterBlank (c := ')') (by decide)
      ((matchLength?_before free _ _ rest).trans found) none
    have closing : .boundary ∉ .blanks :: .char ')' :: pattern := by simpa using free
    have taken := inner.matchLength?_eq shaped.1 closing (gap.getLast?.or before) closed
    rw [argumentWords, tight_append, List.flatMap_append, List.append_assoc, List.append_assoc,
      List.append_assoc, List.append_assoc, matchLength?_blanks blank (inner.solid shaped.1 _)]
    refine (congrArg (Option.map _) taken).trans (congrArg some ?_)
    simp only [List.length_append, List.length_cons, List.length_nil]
    omega
  | operand :: operands, _,
      @WrittenArguments.more _ _ gap text after rest blank inner afterBlank nonempty others, shaped,
      pattern, free, last, n, before, found => by
    rw [allShaped, Bool.and_eq_true] at shaped
    have tail := others.matchLength?_eq shaped.2 free (some ',') found
    have comma := matchLength?_mark afterBlank (c := ',') (by decide) tail none
    have separated : .boundary ∉ .blanks :: .char ',' :: .blanks ::
        ((tight (argumentWords operands)).flatMap callPieces ++ pattern) := by
      simpa [free] using boundary_notMem_callPieces (tight (argumentWords operands))
    have taken := inner.matchLength?_eq shaped.1 separated (gap.getLast?.or before) comma
    rw [argumentWords_cons _ nonempty, tight_append, tight_comma, List.flatMap_append,
      List.flatMap_cons, List.append_assoc, List.append_assoc, List.append_assoc,
      List.append_assoc, List.append_assoc, matchLength?_blanks blank (inner.solid shaped.1 _)]
    refine (congrArg (Option.map _) taken).trans (congrArg some ?_)
    simp only [List.length_append, List.length_cons]
    omega

end

theorem isNameChar_of_starts (starts : startsIdentifier c = true) : isNameChar c = true := by
  rw [startsIdentifier, Bool.or_eq_true] at starts
  rw [isNameChar, Text.isAlphanumeric]
  rcases starts with letter | line
  · simp [letter]
  · simp [line]

theorem isWord_of_starts (starts : startsIdentifier c = true) : Text.isWord c = true := by
  rw [startsIdentifier, Bool.or_eq_true, beq_iff_eq] at starts
  rcases starts with letter | rfl
  · simp [Text.isWord, letter]
  · decide +kernel

theorem isWord_eq_isNameChar (ascii : c.toNat < 128) : Text.isWord c = isNameChar c := by
  rw [isNameChar, Text.isWord_ascii ascii, Text.isAlphanumeric_ascii ascii]

/-- What the pattern of a name takes after the name: nothing, at the end of a word. -/
def nameEnd (name : List Char) : List PatternPiece :=
  if name.getLast?.any isNameChar then [.boundary] else []

theorem referencePattern_identifier {name : String} (named : isName name = true) :
    referencePattern name.toList = .boundary :: (name.toList.map .char ++ nameEnd name.toList) := by
  have chars := isName_chars named
  obtain ⟨c, more, split, starts⟩ := chars.cons
  have head : name.toList.head?.any isNameChar = true := by
    rw [split]
    exact isNameChar_of_starts starts
  have plain : name.toList.contains '(' = false := by
    simpa using notMem_of_continues (c := '(') chars.continues (by decide)
  rw [referencePattern, if_pos head, plain]
  rfl

theorem referencePattern_call {name : String} {arguments : List Operand}
    (shaped : (Operand.call name arguments).isShaped = true) :
    referencePattern (Operand.call name arguments).render.toList =
      .boundary :: (tight (Operand.call name arguments).words).flatMap callPieces := by
  have stripped := Operand.strip_render _ (Operand.lexical_of_isShaped _ shaped)
  rw [Operand.isShaped, Bool.and_eq_true] at shaped
  obtain ⟨c, more, split, starts⟩ := (isName_chars shaped.1).cons
  have head : (Operand.call name arguments).render.toList.head?.any isNameChar = true := by
    simp only [Operand.render, String.toList_append, split, List.cons_append]
    exact isNameChar_of_starts starts
  have opened : (Operand.call name arguments).render.toList.contains '(' = true := by
    simp [Operand.render]
  rw [referencePattern, if_pos head, if_pos opened, ← stripped]
  rfl

/-- A pattern that starts at a boundary and with a word starts where no word stands before. -/
theorem boundary_found (found : matchLength? (.boundary :: pattern) before text = some n)
    (word : text.head?.any Text.isWord = true) :
    before.any Text.isWord = false ∧ matchLength? pattern before text = some n := by
  rw [matchLength?] at found
  split at found
  · next edge =>
    rw [Text.isBoundary, word] at edge
    exact ⟨by simpa using edge, found⟩
  · cases found

theorem Matches.of_nameEnd {name : List Char} (matched : Matches (nameEnd name) text) :
    text = [] := by
  rw [nameEnd] at matched
  split at matched
  · cases matched with
    | boundary inner =>
      cases inner
      rfl
  · cases matched
    rfl

theorem nameEnd_eq {name : List Char} (named : NameChars name)
    (words : ∀ c ∈ name, Text.isWord c = true) :
    nameEnd name = [.boundary] ∧ name.getLast?.any Text.isWord = true := by
  obtain ⟨c, more, split, _⟩ := named.cons
  have last : ∃ d ∈ name, name.getLast? = some d := by
    rw [split]
    exact ⟨_, List.getLast_mem (List.cons_ne_nil c more), List.getLast?_eq_some_getLast _⟩
  obtain ⟨d, mem, last⟩ := last
  have word := words d mem
  rw [nameEnd, last, Option.any_some, Option.any_some, ← isWord_eq_isNameChar (named.ascii d mem),
    word]
  exact ⟨rfl, rfl⟩

/-- What the pattern of a text takes differs from the text at most in blanks. -/
theorem found_strip {key : List Char}
    (found : matchLength? (referencePattern key) before text = some n) :
    ∃ taken rest, text = taken ++ rest ∧ strip taken = strip key := by
  obtain ⟨taken, rest, rfl, _, matched⟩ := matches_of_matchLength? found
  refine ⟨taken, rest, rfl, ?_⟩
  rw [referencePattern] at matched
  obtain ⟨start, body, rfl, edge, inner⟩ := matched.of_append
  obtain rfl : start = [] := by
    split at edge
    · cases edge with
      | boundary inner =>
        cases inner
        rfl
    · cases edge
      rfl
  rw [List.nil_append]
  split at inner
  · refine inner.strip_eq fun c mem => ?_
    simpa using (List.mem_filter.1 mem).2
  · obtain ⟨name, after, rfl, chars, ends⟩ := inner.of_append
    obtain rfl := chars.of_chars
    obtain rfl : after = [] := Matches.of_nameEnd ends
    rw [List.append_nil]

/-- Where the pattern of a name is found, the name stands as words do. -/
theorem found_identifier {name : String} (named : isName name = true)
    (found : matchLength? (referencePattern name.toList) before text = some n) :
    before.any Text.isWord = false ∧ ∃ rest, text = name.toList ++ rest ∧
      ((∀ c ∈ name.toList, Text.isWord c = true) → rest.head?.any Text.isWord = false) := by
  have chars := isName_chars named
  rw [referencePattern_identifier named] at found
  obtain ⟨_, rest, rfl, _, matched⟩ := matches_of_matchLength? found
  cases matched with
  | boundary inner =>
    obtain ⟨_, _, rfl, first, last⟩ := inner.of_append
    obtain rfl := first.of_chars
    obtain rfl := last.of_nameEnd
    rw [List.append_nil] at found ⊢
    obtain ⟨c, more, split, starts⟩ := chars.cons
    have word : (name.toList ++ rest).head?.any Text.isWord = true := by
      rw [split]
      exact isWord_of_starts starts
    obtain ⟨apart, inner⟩ := boundary_found found word
    refine ⟨apart, rest, rfl, fun words => ?_⟩
    obtain ⟨ending, lastWord⟩ := nameEnd_eq chars words
    rw [matchLength?_chars, ending] at inner
    obtain ⟨m, ended, _⟩ := Option.map_eq_some_iff.1 inner
    rw [matchLength?] at ended
    split at ended
    · next edge =>
      have both : (name.toList.getLast?.or before).any Text.isWord = true := by
        cases last : name.toList.getLast? with
        | none =>
          rw [last] at lastWord
          cases lastWord
        | some d =>
          rw [last] at lastWord
          exact lastWord
      rw [Text.isBoundary, both] at edge
      simpa using edge
    · cases ended

/-- Where the pattern of a call is found, the call stands after no word. -/
theorem found_call {name : String} {arguments : List Operand}
    (shaped : (Operand.call name arguments).isShaped = true)
    (found : matchLength? (referencePattern (Operand.call name arguments).render.toList) before
      text = some n) :
    before.any Text.isWord = false ∧ ∃ taken rest, text = taken ++ rest ∧
      Matches ((tight (Operand.call name arguments).words).flatMap callPieces) taken := by
  rw [referencePattern_call shaped] at found
  obtain ⟨taken, rest, rfl, _, matched⟩ := matches_of_matchLength? found
  cases matched with
  | boundary inner =>
    refine ⟨?_, taken, rest, rfl, inner⟩
    rw [Operand.isShaped, Bool.and_eq_true] at shaped
    have chars := isName_chars shaped.1
    obtain ⟨c, more, split, starts⟩ := chars.cons
    rw [Operand.words, tight_name, tight_opening] at inner
    obtain ⟨gap, tail, _, rfl⟩ := inner.of_call chars.continues
    refine (boundary_found found ?_).1
    rw [split]
    exact isWord_of_starts starts

/-- The pattern of a reference takes it, however it is written, if no word stands before it or goes
on after a name. -/
theorem Written.found {operand : Operand} (written : Written operand text)
    (shaped : operand.isShaped = true) (apart : before.any Text.isWord = false)
    (ends : ∀ name, operand = .identifier name → rest.head?.any Text.isWord = false) :
    matchLength? (referencePattern operand.render.toList) before (text ++ rest) =
      some text.length := by
  obtain ⟨c, more, split, starts⟩ := written.starts shaped
  have edge : Text.isBoundary before (text ++ rest).head? = true := by
    rw [Text.isBoundary, apart, split, List.cons_append, List.head?_cons, Option.any_some,
      isWord_of_starts starts]
    rfl
  cases written with
  | @identifier name =>
    have ended : matchLength? (nameEnd name.toList) (name.toList.getLast?.or before) rest =
        some 0 := by
      rw [nameEnd]
      cases last : name.toList.getLast? with
      | none => rfl
      | some d =>
        have ascii := (isName_chars shaped).ascii d (List.mem_of_getLast? last)
        have word := isWord_eq_isNameChar ascii
        rw [Option.any_some]
        split
        · next isName =>
          have ended : Text.isBoundary (some d) rest.head? = true := by
            rw [Text.isBoundary, ends name rfl, Option.any_some, word, isName]
            rfl
          rw [Option.some_or, matchLength?, if_pos ended, matchLength?]
        · rfl
    rw [Operand.render, referencePattern_identifier shaped, matchLength?, if_pos edge,
      matchLength?_chars, ended]
    rfl
  | call blank inner =>
    have taken := (Written.call blank inner).matchLength?_eq shaped List.not_mem_nil before
      (show matchLength? [] none rest = some 0 from rfl)
    rw [List.append_nil] at taken
    rw [referencePattern_call shaped, matchLength?, if_pos edge, taken]
    rfl

/-- A chunk of text in which a pattern is found nowhere is left as it is. -/
theorem markMatches_inert {mark chunk : List Char}
    (inert : ∀ start c rest, chunk = start ++ c :: rest →
      matchLength? pattern (start.getLast?.or before) (c :: rest ++ text) = none) :
    markMatches pattern mark before (chunk ++ text) =
      chunk ++ markMatches pattern mark (chunk.getLast?.or before) text := by
  induction chunk generalizing before with
  | nil => rfl
  | cons c chunk ih =>
    have first := inert [] c chunk rfl
    rw [List.cons_append] at first ⊢
    have later : ∀ start d rest, chunk = start ++ d :: rest →
        matchLength? pattern (start.getLast?.or (some c)) (d :: rest ++ text) = none := by
      intro start d rest split
      rw [← getLast?_cons_or c start before]
      exact inert (c :: start) d rest (by rw [split]; rfl)
    have missed : matchLength? pattern before (c :: (chunk ++ text)) = none := first
    rw [markMatches, missed, getLast?_cons_or]
    exact congrArg (List.cons c) (ih later)

/-- A chunk of text that a pattern takes becomes the mark. -/
theorem markMatches_found {mark chunk : List Char} (nonempty : chunk ≠ [])
    (found : matchLength? pattern before (chunk ++ text) = some chunk.length) :
    markMatches pattern mark before (chunk ++ text) =
      mark ++ markMatches pattern mark chunk.getLast? text := by
  cases chunk with
  | nil => exact absurd rfl nonempty
  | cons c chunk =>
    rw [List.cons_append] at found ⊢
    rw [markMatches, found]
    simp

end TelemetryQuery.Having
