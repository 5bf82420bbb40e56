import TelemetryQuery.Filter.Printer
import TelemetryQuery.Proofs.Filter.Lexer
import TelemetryQuery.Proofs.Filter.Parser
/- Printed filters are read as the filters that were printed. -/
namespace TelemetryQuery.Filter

variable {kind : Kind} {query : Query}

/-- A text that is cut into the given words wherever it stands before one that ends words. -/
def Writes (text : String) (words : List Word) : Prop :=
  ∀ rest after, Stops rest → Cuts rest after → Cuts (text.toList ++ rest) (words ++ after)

theorem stops_nil : Stops [] :=
  fun _ mem => absurd mem (by simp)

theorem stops_cons {c : Char} (mem : c ∈ [' ', '(', ')', ']', ',']) (rest : List Char) :
    Stops (c :: rest) :=
  fun _ head => Option.some.inj head ▸ mem

theorem Cuts.space {text : List Char} {words : List Word} (cuts : Cuts text words) :
    Cuts (' ' :: text) words :=
  .gap rfl cuts

/-- A mark of one character, whatever follows it. -/
theorem Cuts.mark {c : Char} {text : List Char} {words : List Word}
    (mark : Mark c text.head? kind 1) (closed : kind.isOpen = false) (cuts : Cuts text words) :
    Cuts (c :: text) (.fixed kind :: words) := by
  have run : runAt ([c] ++ text) = (.token kind, [c].length) := runAt_eq_token.2 (.mark mark)
  have cut := Cuts.token run cuts
  rwa [Word.ofText, closed] at cut

namespace Writes

variable {a b : String} {v w : List Word}

theorem empty : Writes "" [] :=
  fun _ _ _ cuts => cuts

theorem congr {text : String} (written : Writes a v) (same : a.toList = text.toList) :
    Writes text v := by
  rwa [Writes, ← same]

theorem token {text : String} (run : runAt text.toList = (.token kind, text.toList.length)) :
    Writes text [.ofText kind text] := by
  intro rest after stops cuts
  have cut := Cuts.token (runAt_append stops run) cuts
  rwa [String.ofList_toList] at cut

theorem keyword {text : String} (run : runAt text.toList = (.token kind, text.toList.length))
    (closed : kind.isOpen = false) : Writes text [.fixed kind] := by
  have written := token run
  rwa [Word.ofText, closed] at written

/-- A kind that fixes its text is named by that text. -/
theorem friendly (kind : Kind) (closed : kind.isOpen = false) (shown : kind ≠ .eof) :
    Writes kind.friendly [.fixed kind] := by
  refine keyword ?_ closed
  cases kind <;> first | contradiction | decide +kernel

theorem word (word : Word) (whole : word.Whole) (opened : word.kind.isOpen = true) :
    Writes word.text [word] := by
  have written := token (whole opened)
  rwa [Word.ofText, opened] at written

theorem spaced (first : Writes a v) (last : Writes b w) : Writes (a ++ " " ++ b) (v ++ w) := by
  intro rest after stops cuts
  have cut := first (' ' :: (b.toList ++ rest)) _ (stops_cons (by decide) _)
    (last rest after stops cuts).space
  simpa using cut

theorem parens (inner : Writes a v) :
    Writes ("(" ++ a ++ ")") (.fixed .lparen :: v ++ [.fixed .rparen]) := by
  intro rest after _ cuts
  have cut := (inner (')' :: rest) _ (stops_cons (by decide) _) (cuts.mark .rparen rfl)).mark
    .lparen rfl
  simpa using cut

theorem brackets (inner : Writes a v) :
    Writes ("[" ++ a ++ "]") (.fixed .lbrack :: v ++ [.fixed .rbrack]) := by
  intro rest after _ cuts
  have cut := (inner (']' :: rest) _ (stops_cons (by decide) _) (cuts.mark .rbrack rfl)).mark
    .lbrack rfl
  simpa using cut

/-- A name with brackets right behind it. -/
theorem call (name : Writes a v) (inner : Writes b w) :
    Writes (a ++ "(" ++ b ++ ")") (v ++ (.fixed .lparen :: w ++ [.fixed .rparen])) := by
  intro rest after stops cuts
  have cut := name ('(' :: (b.toList ++ ')' :: rest)) _ (stops_cons (by decide) _)
    (by simpa using inner.parens rest after stops cuts)
  simpa using cut

theorem comma (first : Writes a v) (last : Writes b w) :
    Writes (a ++ ", " ++ b) (v ++ .fixed .comma :: w) := by
  intro rest after stops cuts
  have cut := first (',' :: ' ' :: (b.toList ++ rest)) _ (stops_cons (by decide) _)
    ((last rest after stops cuts).space.mark .comma rfl)
  simpa using cut

end Writes

theorem joinWith_cons (separator part : String) {rest : List String} (nonempty : rest ≠ []) :
    Text.joinWith separator (part :: rest) =
      part ++ separator ++ Text.joinWith separator rest := by
  cases rest with
  | nil => exact absurd rfl nonempty
  | cons next rest => rfl

/-- Items with commas between them. -/
theorem writes_commas {α : Type} {render : α → String} {words : α → List Word} {items : List α}
    (each : ∀ item ∈ items, Writes (render item) (words item)) :
    Writes (Text.joinWith ", " (items.map render)) (commaWords (items.map words)) := by
  induction items with
  | nil => exact .empty
  | cons first items ih =>
    obtain ⟨writesFirst, writesRest⟩ := List.forall_mem_cons.1 each
    cases items with
    | nil => exact writesFirst
    | cons second items => exact writesFirst.comma (ih writesRest)

theorem writes_negation {body : String} {words : List Word} (negated : Bool)
    (written : Writes body words) :
    Writes (negation negated ++ body) (negationWords negated ++ words) := by
  cases negated with
  | false => simpa [negation, negationWords] using written
  | true =>
    have word : Writes "NOT" [.fixed .not] := .friendly .not rfl (by simp)
    exact word.spaced written

theorem whole_negationWords (negated : Bool) : ∀ word ∈ negationWords negated, word.Whole := by
  cases negated with
  | false => simp [negationWords]
  | true => exact List.forall_mem_singleton.2 (Word.whole_fixed rfl)

theorem Literal.writes {literal : Literal} (whole : literal.word.Whole) :
    Writes literal.raw [literal.word] := by
  cases literal with
  | quoted raw => exact .word ⟨.quotedText, raw⟩ whole rfl
  | number raw => exact .word ⟨.number, raw⟩ whole rfl
  | bool raw => exact .word ⟨.bool, raw⟩ whole rfl
  | key raw => exact .word ⟨.key, raw⟩ whole rfl

theorem KeyRef.writes {key : KeyRef} (whole : key.word.Whole) : Writes key.text [key.word] :=
  .word key.word whole rfl

/-- The words of each item are among those of all items. -/
theorem mem_commaWords {lists : List (List Word)} {words : List Word} {word : Word}
    (mem : words ∈ lists) (within : word ∈ words) : word ∈ commaWords lists := by
  fun_induction commaWords lists with
  | case1 => simp at mem
  | case2 only => simpa [List.mem_singleton.1 mem] using within
  | case3 first rest _ ih =>
    rcases List.mem_cons.1 mem with rfl | later
    · exact List.mem_append_left _ within
    · exact List.mem_append_right _ (List.mem_cons_of_mem _ (ih later))

theorem writes_literals {values : List Literal}
    (whole : ∀ word ∈ literalWords values, word.Whole) :
    Writes (literalList values) (literalWords values) := by
  refine writes_commas fun value mem => Literal.writes (whole _ ?_)
  exact mem_commaWords (List.mem_map_of_mem mem) (List.mem_singleton.2 rfl)

theorem Relation.writes (op : Relation) : Writes op.text [.fixed op.kind] := by
  have shown : op.kind ≠ .eof := by cases op <;> simp [Relation.kind]
  have named := Writes.friendly op.kind op.kind_isOpen shown
  cases op <;> exact named

theorem Matcher.writes (matcher : Matcher) : Writes matcher.text [.fixed matcher.kind] := by
  have shown : matcher.kind ≠ .eof := by cases matcher <;> simp [Matcher.kind]
  have named := Writes.friendly matcher.kind matcher.kind_isOpen shown
  cases matcher <;> exact named

theorem Function.writes (function : Function) : Writes function.text [.fixed function.kind] := by
  have shown : function.kind ≠ .eof := by cases function <;> simp [Function.kind]
  have named := Writes.friendly function.kind function.kind_isOpen shown
  cases function <;> exact named

theorem Operands.writes {operands : Operands} (whole : ∀ word ∈ operands.words, word.Whole) :
    Writes operands.render operands.words := by
  cases operands with
  | paren values => exact (writes_literals fun word mem => whole word (by simp [words, mem])).parens
  | bracket values =>
    exact (writes_literals fun word mem => whole word (by simp [words, mem])).brackets
  | single value => exact Literal.writes (whole _ (by simp [words]))

theorem Test.writes {test : Test} (whole : ∀ word ∈ test.words, word.Whole) :
    Writes test.render test.words := by
  have core : ∀ word ∈ test.core, word.Whole := fun word mem =>
    whole word (List.mem_append_right _ mem)
  cases test with
  | relation op value =>
    exact op.writes.spaced (Literal.writes (core _ (by simp [Test.core])))
  | pattern negated matcher value =>
    have written := matcher.writes.spaced (Literal.writes (core value.word (by simp [Test.core])))
    refine (writes_negation negated written).congr ?_
    simp [Test.render]
  | between negated low high =>
    have between : Writes "BETWEEN" [.fixed .between] := .friendly .between rfl (by simp)
    have and : Writes "AND" [.fixed .and] := .friendly .and rfl (by simp)
    have lowWritten := Literal.writes (core low.word (by simp [Test.core]))
    have highWritten := Literal.writes (core high.word (by simp [Test.core]))
    have written := (between.spaced lowWritten).spaced (and.spaced highWritten)
    refine (writes_negation negated written).congr ?_
    simp [Test.render]
  | among negated operands =>
    have isIn : Writes "IN" [.fixed .isIn] := .friendly .isIn rfl (by simp)
    have inner : Writes operands.render operands.words :=
      Operands.writes fun word mem => core word (by simp [Test.core, mem])
    have written := isIn.spaced inner
    refine (writes_negation negated written).congr ?_
    simp [Test.render]
  | present negated =>
    have exist : Writes "EXISTS" [.fixed .exist] := .friendly .exist rfl (by simp)
    exact writes_negation negated exist

theorem Parameter.writes {parameter : Parameter} (whole : ∀ word ∈ parameter.words, word.Whole) :
    Writes parameter.render parameter.words := by
  cases parameter with
  | key ref => exact KeyRef.writes (whole _ (by simp [words]))
  | value literal => exact Literal.writes (whole _ (by simp [words]))
  | array values =>
    exact (writes_literals fun word mem => whole word (by simp [words, mem])).brackets

theorem Atom.writes {atom : Atom} (whole : ∀ word ∈ atom.words, word.Whole) :
    Writes atom.render atom.words := by
  cases atom with
  | comparison key test =>
    have keyWritten := KeyRef.writes (whole key.word (by simp [words]))
    exact keyWritten.spaced (Test.writes fun word mem => whole word (by simp [words, mem]))
  | call function parameters =>
    have inner : Writes (Text.joinWith ", " (parameters.map Parameter.render))
        (commaWords (parameters.map Parameter.words)) := by
      refine writes_commas fun parameter mem => Parameter.writes fun word within => ?_
      refine whole word ?_
      have among := mem_commaWords (List.mem_map_of_mem mem) within
      simp [words, among]
    exact function.writes.call inner
  | quotedText raw => exact .word ⟨.quotedText, raw⟩ (whole _ (by simp [words])) rfl
  | freeText text => exact .word ⟨.freeText, text⟩ (whole _ (by simp [words])) rfl
  | bareKey key => exact KeyRef.writes (whole _ (by simp [words]))
  | bareValue value => exact Literal.writes (whole _ (by simp [words]))

/-- A part of an expression as text. -/
def Phrase.render : Phrase → String
  | term one => one.render
  | terms all => Text.joinWith " AND " (renderTerms all)
  | branches all => Disjunction.render all

theorem Spells.terms_nonempty {terms : Conjunction} {words : List Word}
    (spell : Spells (.terms terms) words) : renderTerms terms ≠ [] := by
  cases spell <;> simp [renderTerms]

theorem Spells.branches_nonempty {branches : Disjunction} {words : List Word}
    (spell : Spells (.branches branches) words) : renderBranches branches ≠ [] := by
  cases spell <;> simp [renderBranches]

/-- Two printed parts with a word between them. -/
theorem Writes.joined {first rest separator : String} {v w : List Word}
    (writesFirst : Writes first v) (between : Writes separator [.fixed kind])
    (writesRest : Writes rest w) :
    Writes (first ++ (" " ++ separator ++ " ") ++ rest) (v ++ .fixed kind :: w) := by
  refine (writesFirst.spaced (between.spaced writesRest)).congr ?_
  simp

theorem writes_terms {first : Term} {rest : Conjunction} {v w : List Word}
    (nonempty : renderTerms rest ≠ []) (writesFirst : Writes first.render v)
    (writesRest : Writes (Phrase.terms rest).render w) :
    Writes (Phrase.terms (first :: rest)).render (v ++ .fixed .and :: w) := by
  have and : Writes "AND" [.fixed .and] := .friendly .and rfl (by simp)
  refine (writesFirst.joined and writesRest).congr ?_
  rw [Phrase.render, Phrase.render, renderTerms, joinWith_cons _ _ nonempty]
  rfl

theorem writes_branches {first : Conjunction} {rest : Disjunction} {v w : List Word}
    (nonempty : renderBranches rest ≠ []) (writesFirst : Writes (Phrase.terms first).render v)
    (writesRest : Writes (Phrase.branches rest).render w) :
    Writes (Phrase.branches (first :: rest)).render (v ++ .fixed .or :: w) := by
  have or : Writes "OR" [.fixed .or] := .friendly .or rfl (by simp)
  refine (writesFirst.joined or writesRest).congr ?_
  simp only [Phrase.render, Disjunction.render, renderBranches]
  rw [joinWith_cons _ _ nonempty]
  rfl

/-- What is spelled by whole words is also spelled by the words of its printed text, where each
pair of terms has its `AND`. -/
theorem Spells.printed {phrase : Phrase} {words : List Word} (spell : Spells phrase words)
    (whole : ∀ word ∈ words, word.Whole) :
    ∃ printed, Writes phrase.render printed ∧ Spells phrase printed := by
  induction spell with
  | @atom negated atom proper =>
    have written := Atom.writes fun word mem => whole word (List.mem_append_right _ mem)
    refine ⟨_, (writes_negation negated written).congr ?_, .atom proper⟩
    rw [Phrase.render, Term.render]
  | @group negated branches words spell ih =>
    obtain ⟨printed, written, spells⟩ := ih fun word mem => whole word (by simp [mem])
    have grouped := writes_negation negated written.parens
    refine ⟨_, (grouped.congr ?_), ?_⟩
    · simp [Phrase.render, Term.render, Disjunction.render]
    · have spelled : Spells (.term (.group negated branches)) _ := .group spells
      simpa using spelled
  | lone _ ih =>
    obtain ⟨printed, written, spells⟩ := ih whole
    refine ⟨printed, written.congr ?_, .lone spells⟩
    rw [Phrase.render, Phrase.render, renderTerms, renderTerms, Text.joinWith]
  | joined _ _ ihFirst ihRest | adjacent _ _ ihFirst ihRest =>
    -- Both are printed with an `AND`, so what is read again is `joined` in either case.
    obtain ⟨first, writesFirst, spellsFirst⟩ := ihFirst fun word mem => whole word (by simp [mem])
    obtain ⟨rest, writesRest, spellsRest⟩ := ihRest fun word mem => whole word (by simp [mem])
    exact ⟨_, writes_terms spellsRest.terms_nonempty writesFirst writesRest,
      .joined spellsFirst spellsRest⟩
  | only _ ih =>
    obtain ⟨printed, written, spells⟩ := ih whole
    refine ⟨printed, written.congr ?_, .only spells⟩
    rw [Phrase.render, Phrase.render, Disjunction.render, renderBranches, renderBranches,
      Text.joinWith]
  | either _ _ ihFirst ihRest =>
    obtain ⟨first, writesFirst, spellsFirst⟩ := ihFirst fun word mem => whole word (by simp [mem])
    obtain ⟨rest, writesRest, spellsRest⟩ := ihRest fun word mem => whole word (by simp [mem])
    exact ⟨_, writes_branches spellsRest.branches_nonempty writesFirst writesRest,
      .either spellsFirst spellsRest⟩

theorem Query.Spelled.printed {words : List Word} (spelled : query.Spelled words)
    (whole : ∀ word ∈ words, word.Whole) :
    ∃ printed, Writes query.render printed ∧ query.Spelled printed := by
  cases query with
  | none => exact ⟨[], Writes.empty.congr rfl, rfl⟩
  | some branches => exact Spells.printed spelled whole

/-- What a text that is cut into the words of a filter is read as. -/
theorem parse_of_cuts {text : String} {words : List Word} (cuts : Cuts text.toList words)
    (spelled : query.Spelled words) :
    ∃ found, parse text = .ok found ∧ Query.unplaced found = Query.unplaced query := by
  obtain ⟨clean, rfl⟩ := cuts_iff.1 cuts
  obtain ⟨accepted, same⟩ := read_complete clean spelled
  refine ⟨(read text).query, ?_, same⟩
  rw [parse, accepted]
  rfl

theorem parse_of_writes {text : String} {words : List Word} (written : Writes text words)
    (spelled : query.Spelled words) :
    ∃ found, parse text = .ok found ∧ Query.unplaced found = Query.unplaced query := by
  have cuts := written [] [] stops_nil .nil
  rw [List.append_nil, List.append_nil] at cuts
  exact parse_of_cuts cuts spelled

theorem parse_eq_ok {text : String} :
    parse text = .ok query ↔ (read text).errors = [] ∧ (read text).query = query := by
  rw [parse]
  split
  · next clean =>
    rw [List.isEmpty_iff] at clean
    simp [clean]
  · next errors =>
    rw [List.isEmpty_iff] at errors
    simp [errors]

/-- A text that is read without errors is cut into the words of its filter. -/
theorem parse_cuts {text : String} (ok : parse text = .ok query) :
    ∃ words, Cuts text.toList words ∧ query.Spelled words := by
  obtain ⟨accepted, rfl⟩ := parse_eq_ok.1 ok
  obtain ⟨clean, spelled⟩ := read_sound accepted
  exact ⟨_, cuts_iff.2 ⟨clean, rfl⟩, spelled⟩

/-- The words of a text that is read without errors, all of them whole. -/
theorem parse_spelled {text : String} (ok : parse text = .ok query) :
    ∃ words, query.Spelled words ∧ ∀ word ∈ words, word.Whole := by
  obtain ⟨words, cuts, spelled⟩ := parse_cuts ok
  exact ⟨words, spelled, cuts.whole⟩

theorem Parameter.render_unplaced (parameter : Parameter) :
    parameter.unplaced.render = parameter.render := by
  cases parameter <;> rfl

theorem Atom.render_unplaced (atom : Atom) : atom.unplaced.render = atom.render := by
  cases atom with
  | call function parameters =>
    have same : Parameter.render ∘ Parameter.unplaced = Parameter.render :=
      funext Parameter.render_unplaced
    rw [unplaced, render, List.map_map, same, render]
  | _ => rfl

mutual

theorem Term.render_unplaced : ∀ term : Term, term.unplaced.render = term.render
  | .atom negated atom => by
    rw [Term.unplaced, Term.render, Term.render, Atom.render_unplaced]
  | .group negated branches => by
    rw [Term.unplaced, Term.render, Term.render, renderBranches_unplaced branches]

theorem renderBranches_unplaced : ∀ branches : List (List Term),
    renderBranches (unplacedBranches branches) = renderBranches branches
  | [] => rfl
  | terms :: rest => by
    rw [unplacedBranches, renderBranches, renderBranches, renderTerms_unplaced terms,
      renderBranches_unplaced rest]

theorem renderTerms_unplaced : ∀ terms : List Term,
    renderTerms (unplacedTerms terms) = renderTerms terms
  | [] => rfl
  | term :: rest => by
    rw [unplacedTerms, renderTerms, renderTerms, Term.render_unplaced term,
      renderTerms_unplaced rest]

end

theorem Query.render_unplaced (query : Query) : Query.render query.unplaced = query.render := by
  cases query with
  | none => rfl
  | some branches => exact congrArg (Text.joinWith " OR ") (renderBranches_unplaced branches)

/-- A filter that was read is printed as a text that is read as the same filter, but for the places
of its keys, and printed again as that text. -/
theorem parse_render {text : String} {query : Query} (ok : parse text = .ok query) :
    ∃ again, parse query.render = .ok again ∧ Query.unplaced again = Query.unplaced query ∧
      Query.render again = query.render := by
  obtain ⟨words, spelled, whole⟩ := parse_spelled ok
  obtain ⟨printed, written, spells⟩ := spelled.printed whole
  obtain ⟨again, found, same⟩ := parse_of_writes written spells
  refine ⟨again, found, same, ?_⟩
  rw [← Query.render_unplaced again, same, Query.render_unplaced query]

/-- Blanks, a comment, keywords in lower case, a doubled equals sign and a left out `AND` are not
kept. -/
theorem parse_render_loose :
    let text := "a[]==1 /**/not(b not in['x\\'y',2e3]or has (c,[-.5]) )"
    ∃ query, parse text = .ok query ∧
      query.render = "a[] = 1 AND NOT (b NOT IN ['x\\'y', 2e3] OR has(c, [-.5]))" ∧
      ∃ again, parse query.render = .ok again ∧ Query.unplaced again = Query.unplaced query ∧
        Query.render again = query.render := by
  intro text
  obtain ⟨accepted, shown⟩ : (read text).errors = [] ∧ (read text).query.render =
      "a[] = 1 AND NOT (b NOT IN ['x\\'y', 2e3] OR has(c, [-.5]))" := by decide +kernel
  have ok : parse text = .ok (read text).query := parse_eq_ok.2 ⟨accepted, rfl⟩
  exact ⟨(read text).query, ok, shown, parse_render ok⟩

end TelemetryQuery.Filter
