import TelemetryQuery.Proofs.Field.KeyText
import TelemetryQuery.Proofs.Having.Pass
/- What follows a lexeme of a condition without quotes. -/
namespace TelemetryQuery.Having

theorem ascii_of_toLower {c : Char} (ascii : c.toLower.toNat < 128) : c.toNat < 128 := by
  unfold Char.toLower at ascii
  split at ascii
  · next upper =>
    have last : c.toNat ≤ 90 := UInt32.le_iff_toNat_le.1 upper.2
    omega
  · exact ascii

theorem reserved_mem {word : String} (reserved : Kind.ofWord word ≠ .identifier) :
    Text.lower word ∈ ["and", "or", "not", "true", "false"] := by
  rw [Kind.ofWord] at reserved
  split at reserved
  case h_6 => exact absurd rfl reserved
  all_goals next same => simp [same]

/-- Reserved words are made of ASCII letters. -/
theorem isAlpha_of_reserved {word : String} (reserved : Kind.ofWord word ≠ .identifier) {c : Char}
    (mem : c ∈ word.toList) : c.toNat < 128 ∧ c.isAlpha = true := by
  have letters : ["and", "or", "not", "true", "false"].all
      (·.toList.all fun c => c.toNat < 128 && c.isAlpha) = true := by decide
  have lowered := List.all_eq_true.1 (List.all_eq_true.1 letters _ (reserved_mem reserved)) _
    (Text.toLower_mem rfl mem)
  rw [Bool.and_eq_true, decide_eq_true_eq] at lowered
  have ascii := ascii_of_toLower lowered.1
  have all : ((List.range 128).map Char.ofNat).all
      (fun c => !c.toLower.isAlpha || c.isAlpha) = true := by decide
  have alpha := ascii_all all ascii
  rw [lowered.2] at alpha
  exact ⟨ascii, alpha⟩

theorem toLower_of_reserved {c : Char} {more : List Char}
    (reserved : Kind.ofWord (String.ofList (c :: more)) ≠ .identifier) :
    c.toLower ∈ ['a', 'o', 'n', 't', 'f'] := by
  have starts : ["and", "or", "not", "true", "false"].all
      (·.toList.head?.all (· ∈ ['a', 'o', 'n', 't', 'f'])) = true := by decide
  have lowered := List.all_eq_true.1 starts _ (reserved_mem reserved)
  rw [Text.lower, String.toList_ofList, String.toList_ofList, List.map_cons, List.head?_cons,
    Option.all_some, decide_eq_true_eq] at lowered
  exact lowered

def Unquoted (text : List Char) : Prop :=
  ∀ c ∈ text, ¬(c = '\'' ∨ c = '"')

instance (text : List Char) : Decidable (Unquoted text) :=
  List.decidableBAll _ text

theorem Unquoted.append {first second : List Char} (unquoted : Unquoted (first ++ second)) :
    Unquoted first ∧ Unquoted second :=
  List.forall_mem_append.1 unquoted

theorem MarkChars.chars {kind : Kind} {chars rest : List Char} (mark : MarkChars kind chars rest) :
    chars ≠ [] ∧ ∀ c ∈ chars, c ∈ markChars := by
  rcases mark with ⟨c, rfl, single, _⟩ | ⟨c, d, rfl, double⟩
  · exact ⟨by simp, List.forall_mem_singleton.2 (markKind?_mem single)⟩
  · obtain ⟨first, second⟩ := doubleMarkKind?_mem double
    exact ⟨by simp, List.forall_mem_cons.2 ⟨first, List.forall_mem_singleton.2 second⟩⟩

theorem MarkChars.opening {kind : Kind} {more rest : List Char}
    (mark : MarkChars kind ('(' :: more) rest) : kind = .lparen := by
  rcases mark with ⟨c, same, single, _⟩ | ⟨c, d, same, double⟩
  · obtain ⟨rfl, _⟩ := List.cons.inj same
    exact (Option.some.inj single).symm
  · obtain ⟨rfl, _⟩ := List.cons.inj same
    simp [doubleMarkKind?] at double

/-- The first character of a token by the kind of the token. -/
inductive Leads (chars : List Char) : Char → Kind → Prop
  | mark {c : Char} {kind : Kind} : c ∈ markChars → (c = '(' → kind = .lparen) → Leads chars c kind
  | number {c : Char} : c.isDigit = true ∨ c = '.' → Leads chars c .number
  | word {c : Char} : startsIdentifier c = true → Leads chars c (.ofWord (String.ofList chars))

theorem Takes.leads {chars rest : List Char} {kind : Kind} (takes : Takes chars rest kind)
    (unquoted : Unquoted chars) : ∃ c more, chars = c :: more ∧ Leads chars c kind := by
  cases takes with
  | mark _ mark =>
    obtain ⟨nonempty, marks⟩ := mark.chars
    obtain ⟨c, more, rfl⟩ := List.exists_cons_of_ne_nil nonempty
    refine ⟨c, more, rfl, .mark (marks c List.mem_cons_self) ?_⟩
    rintro rfl
    exact mark.opening
  | quoted mem quote => exact absurd quote (unquoted _ mem)
  | number _ starts =>
    have head := head_of_startsNumber starts
    cases chars with
    | nil => cases starts
    | cons c more => exact ⟨c, more, rfl, .number (by simpa using head)⟩
  | word starts _ _ =>
    cases chars with
    | nil => cases starts
    | cons c more => exact ⟨c, more, rfl, .word starts⟩

variable {ending : List Char} {lexemes : List Lexeme}

/-- The text of lexemes starts with a blank or with a token. -/
theorem Laid.leads (laid : Laid ending lexemes) (unquoted : Unquoted (lay ending lexemes))
    {c : Char} (head : (lay ending lexemes).head? = some c) :
    Text.isBlank c = true ∨ ∃ lexeme ∈ lexemes.head?, Leads lexeme.chars c lexeme.kind ∧
      lexeme.chars.head? = some c := by
  cases lexemes with
  | nil => exact .inl (laid c (List.mem_of_mem_head? head))
  | cons lexeme rest =>
    obtain ⟨gap, kind, chars⟩ := lexeme
    obtain ⟨blank, _, token, _⟩ := laid
    cases gap with
    | cons d gap =>
      obtain rfl := Option.some.inj head
      exact .inl (blank d List.mem_cons_self)
    | nil =>
      obtain ⟨d, more, rfl, leads⟩ :=
        (tokenAt?_takes token).leads unquoted.append.2.append.1
      obtain rfl := Option.some.inj head
      exact .inr ⟨_, rfl, leads, rfl⟩

/-- Text is at the edge of a word where it starts with no word and goes on with no number. -/
theorem Laid.edge (laid : Laid ending lexemes) (unquoted : Unquoted (lay ending lexemes))
    (word : ∀ c ∈ (lay ending lexemes).head?, startsIdentifier c = false)
    (number : ∀ lexeme ∈ lexemes.head?, lexeme.kind = .number →
      (lay ending lexemes).head?.any continuesIdentifier = false) :
    Edge (lay ending lexemes) := by
  intro c head
  rw [isEdge, Bool.or_eq_true, Bool.or_eq_true, decide_eq_true_eq]
  rcases laid.leads unquoted head with blank | ⟨lexeme, next, leads, _⟩
  · exact .inl (.inl blank)
  · have stops := number lexeme next
    rw [head, Option.any_some] at stops
    generalize lexeme.kind = kind at leads stops
    cases leads with
    | mark mark _ => exact .inl (.inr mark)
    | number digit =>
      have continues : continuesIdentifier c = true := by
        rcases digit with digit | rfl
        · exact continuesIdentifier_digit digit
        · rw [continuesIdentifier_ascii (by decide)]
          decide
      rw [stops rfl] at continues
      cases continues
    | word starts =>
      rw [word c head] at starts
      cases starts

theorem Laid.edge_of_stops (laid : Laid ending lexemes) (unquoted : Unquoted (lay ending lexemes))
    (stops : (lay ending lexemes).head?.any continuesIdentifier = false) :
    Edge (lay ending lexemes) := by
  refine laid.edge unquoted (fun c head => ?_) fun _ _ _ => stops
  rw [head, Option.any_some] at stops
  cases starts : startsIdentifier c with
  | false => rfl
  | true =>
    rw [continues_of_starts starts] at stops
    cases stops

theorem Laid.unopened (laid : Laid ending lexemes) (unquoted : Unquoted (lay ending lexemes))
    (next : ∀ lexeme ∈ lexemes.head?, lexeme.kind ≠ .lparen) : Unopened (lay ending lexemes) := by
  rw [Unopened]
  cases lexemes with
  | nil =>
    rw [lay, ← List.append_nil ending, List.dropWhile_append_of_pos laid]
    simp
  | cons lexeme rest =>
    obtain ⟨blank, solid, token, _⟩ := laid
    obtain ⟨c, more, split, leads⟩ :=
      (tokenAt?_takes token).leads unquoted.append.2.append.1
    have other := next lexeme rfl
    rw [split, List.head?_cons, Option.any_some] at solid
    rw [lay, split, List.dropWhile_append_of_pos blank, List.cons_append,
      List.dropWhile_cons_of_neg (by simpa using solid)]
    rintro ⟨⟩
    generalize lexeme.kind = kind at leads other
    cases leads with
    | mark _ opening => exact other (opening rfl)
    | number digit => revert digit; decide
    | word starts =>
      rw [startsIdentifier_mark (by decide)] at starts
      cases starts

/-- A number ends where no number and no name follows. -/
theorem Laid.endsNumber (laid : Laid ending lexemes) (unquoted : Unquoted (lay ending lexemes))
    (next : ∀ lexeme ∈ lexemes.head?, lexeme.kind ≠ .number ∧ lexeme.kind ≠ .identifier) :
    EndsNumber (lay ending lexemes) := by
  intro c head
  rcases laid.leads unquoted head with blank | ⟨lexeme, isNext, leads, first⟩
  · have all : ∀ d ∈ ['.', 'e', 'E'], Text.isBlank d = false := by
      simp only [List.forall_mem_cons]
      exact ⟨by decide, by decide, by decide, List.forall_mem_nil _⟩
    have stops := continuesIdentifier_blank blank
    refine ⟨?_, ?_, ?_, ?_⟩
    · cases digit : c.isDigit with
      | false => rfl
      | true =>
        rw [continuesIdentifier_digit digit] at stops
        cases stops
    all_goals
      rintro rfl
      rw [all _ (by simp)] at blank
      cases blank
  · obtain ⟨notNumber, notName⟩ := next lexeme isNext
    obtain ⟨more, split⟩ := List.head?_eq_some_iff.1 first
    generalize lexeme.kind = kind at leads notNumber notName
    cases leads with
    | mark mark _ =>
      have all :
          markChars.all (fun c => !c.isDigit && c != '.' && c != 'e' && c != 'E') = true := by
        decide
      simpa [and_assoc] using mark_all all mark
    | number _ => exact absurd rfl notNumber
    | word starts =>
      rw [split] at notName
      have lowered := toLower_of_reserved notName
      refine ⟨?_, ?_, ?_, ?_⟩
      · cases digit : c.isDigit with
        | false => rfl
        | true =>
          rw [startsIdentifier_digit digit] at starts
          cases starts
      all_goals
        rintro rfl
        revert lowered
        decide

end TelemetryQuery.Having
