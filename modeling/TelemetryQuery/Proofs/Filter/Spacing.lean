import TelemetryQuery.Proofs.Filter.Printer
import TelemetryQuery.Proofs.Filter.SingleToken
/- The space between tokens does not matter: where it is one blank the tokens are the same, and
each of them is the same where it stands alone. -/
namespace TelemetryQuery.Filter

/-- What a token says, wherever it stands. -/
def Token.spelling (token : Token) : Kind × String :=
  (token.kind, token.text)

/-- A token that its own text is from start to end. -/
def Token.IsWhole (token : Token) : Prop :=
  runAt token.text.toList = (.token token.kind, token.text.toList.length)

/-- A token before text that ends words is a run of its own. -/
theorem runsFrom_whole {token : Token} (whole : token.IsWhole) {rest : List Char}
    (stops : Stops rest) (place : Text.Place) (start : Nat) :
    runsFrom place start (token.text.toList ++ rest) =
      ⟨.token token.kind, token.text.toList, place, start⟩ ::
        runsFrom (place.after token.text.toList) (start + token.text.toList.length) rest := by
  have run := runAt_append stops whole
  cases chars : token.text.toList with
  | nil =>
    rw [chars] at run
    exact absurd rfl (runAt_token_nonempty run)
  | cons c text =>
    rw [chars, List.cons_append] at run
    rw [List.cons_append, runsFrom, run]
    simp only [List.length_cons, Nat.add_one_sub_one, List.take_left, List.drop_left]

theorem runsFrom_blank (place : Text.Place) (start : Nat) (text : List Char) :
    runsFrom place start (' ' :: text) =
      ⟨.gap, [' '], place, start⟩ :: runsFrom (place.after [' ']) (start + 1) text := by
  have gap : runAt (' ' :: text) = (.gap, 1) := rfl
  rw [runsFrom, gap]
  rfl

/-- Tokens with blanks between them are read as these tokens, from wherever they start. -/
theorem runsFrom_spaced {tokens : List Token} (whole : ∀ token ∈ tokens, token.IsWhole)
    (place : Text.Place) (start : Nat) :
    let runs := runsFrom place start (Text.joinWith " " (tokens.map Token.text)).toList
    runs.filterMap Run.error? = [] ∧
      (runs.filterMap Run.token?).map Token.spelling = tokens.map Token.spelling := by
  induction tokens generalizing place start with
  | nil =>
    rw [List.map_nil, Text.joinWith, String.toList_empty, runsFrom]
    exact ⟨rfl, rfl⟩
  | cons token rest ih =>
    obtain ⟨first, others⟩ := List.forall_mem_cons.1 whole
    have spelled : Token.spelling ⟨token.kind, String.ofList token.text.toList, place, start,
        start + token.text.toList.length⟩ = token.spelling := by
      rw [String.ofList_toList]
      rfl
    by_cases last : rest = []
    · have alone := runsFrom_whole first stops_nil place start
      rw [List.append_nil, runsFrom] at alone
      subst last
      rw [List.map_singleton, Text.joinWith, alone]
      exact ⟨rfl, congrArg (fun spelling => [spelling]) spelled⟩
    · -- The blank ends the token, and the other tokens follow at their own place.
      rw [List.map_cons, joinWith_cons " " _ (by simpa using last), String.toList_append,
        String.toList_append, List.append_assoc]
      have blank : " ".toList = [' '] := by decide
      rw [blank, List.singleton_append, runsFrom_whole first (stops_cons (by decide) _),
        runsFrom_blank]
      obtain ⟨clean, same⟩ := ih others _ _
      exact ⟨clean, congrArg₂ List.cons spelled same⟩

/-- Tokens do not depend on the space between them. Written with one blank between neighbours, the
tokens of a text are read without an error as tokens of the same kinds and texts; and the text of
each, read alone, is this one token. -/
theorem tokens_spaced (text : String) :
    let spaced := Text.joinWith " " ((lex text).tokens.map Token.text)
    (lex spaced).errors = [] ∧
      (lex spaced).tokens.map Token.spelling = (lex text).tokens.map Token.spelling ∧
      ∀ token ∈ (lex text).tokens, lex token.text = .single token.kind token.text := by
  intro spaced
  have whole : ∀ token ∈ (lex text).tokens, token.IsWhole := runsFrom_token_run _ _ _
  obtain ⟨clean, same⟩ := runsFrom_spaced whole .start 0
  exact ⟨clean, same, fun token mem => lex_single (whole token mem)⟩

end TelemetryQuery.Filter
