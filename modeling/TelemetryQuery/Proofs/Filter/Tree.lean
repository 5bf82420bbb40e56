import TelemetryQuery.Filter.Tree
import TelemetryQuery.Proofs.Filter.Printer
import TelemetryQuery.Proofs.Filter.Token
/- A logical tree is extracted again from its own text. -/
namespace TelemetryQuery.Filter

variable {words : List Word} {node : Node} {tree : Tree}

/-- A number, if the word is one, that is finite. -/
def Word.Finite (word : Word) : Prop :=
  word.kind = .number → (Number.ofText? word.text).any Number.isFinite = true

instance (word : Word) : Decidable word.Finite :=
  inferInstanceAs (Decidable (_ → _))

/-- A word that is one token, and a finite number if it is a number. -/
def Word.Legible (word : Word) : Prop :=
  word.Whole ∧ word.Finite

/-- A literal that prints the value of a literal. -/
theorem Literal.reprinted {literal : Literal} (legible : literal.word.Legible) :
    ∃ again : Literal, again.raw = literal.value.literal ∧ again.value = literal.value ∧
      again.word.Whole := by
  cases literal with
  | quoted raw =>
    exact ⟨.quoted (Text.quote (Text.unquote raw)), rfl,
      congrArg Value.text (Text.unquote_quote _), fun _ => runAt_quote _⟩
  | key raw =>
    exact ⟨.quoted (Text.quote raw), rfl, congrArg Value.text (Text.unquote_quote raw),
      fun _ => runAt_quote _⟩
  | bool raw =>
    rw [Literal.value]
    cases Text.sameIgnoringCase raw "true" with
    | true => exact ⟨.bool "true", rfl, rfl, fun _ => by decide +kernel⟩
    | false => exact ⟨.bool "false", rfl, rfl, fun _ => by decide +kernel⟩
  | number raw =>
    have number : (Number.ofText? raw).any Number.isFinite = true := legible.2 rfl
    obtain ⟨n, read, finite⟩ := (Option.any_eq_true _ _).1 number
    cases n with
    | nan => cases finite
    | infinite negative => cases finite
    | finite negative units =>
      obtain ⟨held, bounded⟩ := Number.ofText?_held read
      refine ⟨.number (Number.display (.finite negative units)), ?_, ?_, fun _ => ?_⟩
      · rw [Literal.value, read]
        rfl
      · rw [Literal.value, Literal.value, read, Number.ofText?_display negative held bounded]
        rfl
      · exact runAt_display negative held bounded

theorem reprinted_list {values : List Literal}
    (legible : ∀ value ∈ values, value.word.Legible) :
    ∃ again : List Literal, again.map Literal.raw = values.map (·.value.literal) ∧
      again.map Literal.value = values.map Literal.value ∧ again.length = values.length ∧
      ∀ value ∈ again, value.word.Whole := by
  induction values with
  | nil => exact ⟨[], rfl, rfl, rfl, by simp⟩
  | cons value values ih =>
    obtain ⟨legibleFirst, legibleRest⟩ := List.forall_mem_cons.1 legible
    obtain ⟨first, raw, same, whole⟩ := Literal.reprinted legibleFirst
    obtain ⟨rest, raws, sames, length, wholes⟩ := ih legibleRest
    exact ⟨first :: rest, by simp [raw, raws], by simp [same, sames], by simp [length],
      List.forall_mem_cons.2 ⟨whole, wholes⟩⟩

/-- A condition that is printed as a comparison which has that condition. -/
def Condition.Printed (condition : Condition) : Prop :=
  ∃ key test, Condition.ofComparison key test = condition ∧
    condition.render = Atom.render (.comparison key test) ∧ Test.Proper test ∧
    ∀ word ∈ Atom.words (.comparison key test), word.Whole

theorem whole_commaWords {lists : List (List Word)}
    (each : ∀ words ∈ lists, ∀ word ∈ words, word.Whole) :
    ∀ word ∈ commaWords lists, word.Whole := by
  fun_induction commaWords lists with
  | case1 => simp
  | case2 only => simpa using each
  | case3 first rest _ ih =>
    obtain ⟨wholeFirst, wholeRest⟩ := List.forall_mem_cons.1 each
    exact List.forall_mem_append.2 ⟨wholeFirst,
      List.forall_mem_cons.2 ⟨Word.whole_fixed rfl, ih wholeRest⟩⟩

theorem whole_literalWords {values : List Literal} (each : ∀ value ∈ values, value.word.Whole) :
    ∀ word ∈ literalWords values, word.Whole :=
  whole_commaWords (by simpa using each)

theorem whole_bracketed {opening closing : Kind} (opens : opening.isOpen = false)
    (closes : closing.isOpen = false) (inner : ∀ word ∈ words, word.Whole) :
    ∀ word ∈ .fixed opening :: words ++ [.fixed closing], word.Whole :=
  List.forall_mem_append.2 ⟨List.forall_mem_cons.2 ⟨Word.whole_fixed opens, inner⟩,
    List.forall_mem_singleton.2 (Word.whole_fixed closes)⟩

theorem Operands.whole {operands : Operands}
    (each : ∀ value ∈ operands.values, value.word.Whole) :
    ∀ word ∈ operands.words, word.Whole := by
  cases operands with
  | paren values => exact whole_bracketed rfl rfl (whole_literalWords each)
  | bracket values => exact whole_bracketed rfl rfl (whole_literalWords each)
  | single value => simpa [words, Operands.values] using each

theorem Test.whole {test : Test} (each : ∀ value ∈ test.literals, value.word.Whole) :
    ∀ word ∈ test.words, word.Whole := by
  refine List.forall_mem_append.2 ⟨whole_negationWords _, ?_⟩
  cases test with
  | relation op value =>
    simpa [core, literals, Word.whole_fixed op.kind_isOpen] using each
  | pattern negated matcher value =>
    simpa [core, literals, Word.whole_fixed matcher.kind_isOpen] using each
  | between negated low high =>
    have between : (Word.fixed .between).Whole := Word.whole_fixed rfl
    have and : (Word.fixed .and).Whole := Word.whole_fixed rfl
    simpa [core, literals, between, and] using each
  | among negated operands =>
    exact List.forall_mem_cons.2 ⟨Word.whole_fixed rfl, Operands.whole each⟩
  | present negated => exact List.forall_mem_singleton.2 (Word.whole_fixed rfl)

/-- The relation that is written with the operator of a relation. -/
theorem Relation.reprinted (op : Relation) :
    ∃ again : Relation, again.text = op.operator.text ∧ again.operator = op.operator := by
  cases op with
  | unequal => exact ⟨notEqual, rfl, rfl⟩
  | equal => exact ⟨equal, rfl, rfl⟩
  | notEqual => exact ⟨notEqual, rfl, rfl⟩
  | less => exact ⟨less, rfl, rfl⟩
  | lessEq => exact ⟨lessEq, rfl, rfl⟩
  | greater => exact ⟨greater, rfl, rfl⟩
  | greaterEq => exact ⟨greaterEq, rfl, rfl⟩

theorem Matcher.text_negateIf (matcher : Matcher) (negated : Bool) :
    (matcher.operator.negateIf negated).text = negation negated ++ matcher.text := by
  cases matcher <;> cases negated <;> rfl

/-- A test that prints the operator and the operand of a test. -/
theorem Test.reprinted {test : Test} (proper : test.Proper)
    (legible : ∀ value ∈ test.literals, value.word.Legible) :
    ∃ again : Test, again.operator = test.operator ∧ again.operand = test.operand ∧
      again.Proper ∧ (∀ value ∈ again.literals, value.word.Whole) ∧
      ∀ key, (Condition.mk key test.operator test.operand).render =
        key.toText ++ " " ++ again.render := by
  cases test with
  | relation op value =>
    obtain ⟨again, raw, same, whole⟩ := Literal.reprinted (legible value (by simp [literals]))
    obtain ⟨sign, text, operator⟩ := op.reprinted
    refine ⟨.relation sign again, operator, congrArg Operand.scalar same, trivial,
      List.forall_mem_singleton.2 whole, fun key => ?_⟩
    simp only [Condition.render, Test.operator, Test.operand, Test.render, text, raw,
      String.append_assoc]
  | pattern negated matcher value =>
    obtain ⟨again, raw, same, whole⟩ := Literal.reprinted (legible value (by simp [literals]))
    refine ⟨.pattern negated matcher again, rfl, congrArg Operand.scalar same, trivial,
      List.forall_mem_singleton.2 whole, fun key => ?_⟩
    simp only [Condition.render, Test.operator, Test.operand, Test.render, raw,
      matcher.text_negateIf, String.append_assoc]
  | between negated low high =>
    obtain ⟨lowAgain, lowRaw, lowSame, lowWhole⟩ :=
      Literal.reprinted (legible low (by simp [literals]))
    obtain ⟨highAgain, highRaw, highSame, highWhole⟩ :=
      Literal.reprinted (legible high (by simp [literals]))
    refine ⟨.between negated lowAgain highAgain, rfl, ?_, trivial,
      by simp [literals, lowWhole, highWhole], fun key => String.toList_injective ?_⟩
    · simp only [Test.operand, lowSame, highSame]
    · cases negated <;>
        simp [Condition.render, Test.operator, Test.operand, Test.render, lowRaw, highRaw,
          Operator.negateIf, Operator.negate, Operator.text, negation]
  | among negated operands =>
    obtain ⟨again, raws, sames, length, wholes⟩ := reprinted_list legible
    have nonempty : operands.values ≠ [] := by
      cases operands with
      | paren values => exact proper
      | bracket values => exact proper
      | single value => simp [Operands.values]
    have some : again ≠ [] := by
      rw [← List.length_pos_iff, length]
      exact List.length_pos_iff.2 nonempty
    refine ⟨.among negated (.paren again), rfl, congrArg Operand.list sames, some, wholes,
      fun key => String.toList_injective ?_⟩
    have text : Text.joinWith ", " ((operands.values.map Literal.value).map Value.literal) =
        literalList again := by
      rw [literalList, raws, List.map_map]
      rfl
    cases negated <;>
      simp [Condition.render, Test.operator, Test.operand, Test.render, Operands.render, text,
        Operator.negateIf, Operator.negate, Operator.text, negation, -List.map_map]
  | present negated =>
    refine ⟨.present negated, rfl, rfl, trivial, by simp [literals], fun key => ?_⟩
    cases negated <;> rfl

theorem Test.literal_mem {test : Test} {value : Literal} (mem : value ∈ test.literals) :
    value.word ∈ test.words := by
  refine List.mem_append_right _ ?_
  cases test with
  | relation op other => simp_all [literals, core]
  | pattern negated matcher other => simp_all [literals, core]
  | between negated low high =>
    simp only [literals, List.mem_cons, List.not_mem_nil, or_false] at mem
    rcases mem with rfl | rfl <;> simp [core]
  | among negated operands =>
    have listed : ∀ values, value ∈ values → value.word ∈ literalWords values :=
      fun values within =>
        mem_commaWords (List.mem_map_of_mem within) (List.mem_singleton.2 rfl)
    cases operands with
    | paren values => simp [core, Operands.words, listed values mem]
    | bracket values => simp [core, Operands.words, listed values mem]
    | single other => simp_all [literals, core, Operands.words, Operands.values]
  | present negated => simp [literals] at mem

/-- A comparison with legible words is printed as a comparison with the same condition. -/
theorem printed_ofComparison {key : KeyRef} {test : Test} (proper : test.Proper)
    (legible : ∀ word ∈ Atom.words (.comparison key test), word.Legible) :
    (Condition.ofComparison key test).Printed := by
  obtain ⟨legibleKey, legibleTest⟩ := List.forall_mem_cons.1 legible
  obtain ⟨again, operator, operand, properAgain, whole, shown⟩ :=
    Test.reprinted proper fun value mem => legibleTest _ (Test.literal_mem mem)
  have keyWhole := runAt_toText (legibleKey.1 rfl)
  have sameKey := (Field.Key.toText_renamed key.text).2
  refine ⟨⟨(Field.Key.ofText key.text).toText, .start⟩, again, ?_, shown _, properAgain,
    List.forall_mem_cons.2 ⟨fun _ => keyWhole, Test.whole whole⟩⟩
  rw [Condition.ofComparison, Condition.ofComparison, sameKey, operator, operand]

/-- A node whose conditions are printed well and whose joinings join two nodes at least. -/
inductive Node.WellFormed : Node → Prop
  | leaf {negated : Bool} {condition : Condition} : condition.Printed →
      WellFormed (.leaf negated condition)
  | join {negated : Bool} {connective : Connective} {children : List Node} :
      2 ≤ children.length → (∀ child ∈ children, WellFormed child) →
      WellFormed (.join negated connective children)

theorem Node.WellFormed.negateIf (well : node.WellFormed) (flip : Bool) :
    (node.negateIf flip).WellFormed := by
  cases well with
  | leaf printed => exact .leaf printed
  | join long each => exact .join long each

/-- What holds of nodes holds of their joining, if it holds of one that joins two at least. -/
theorem Tree.forall_mem_combine {p : Node → Prop} (connective : Connective) {nodes : List Node}
    (join : 2 ≤ nodes.length → p (.join false connective nodes)) (each : ∀ node ∈ nodes, p node) :
    ∀ node ∈ (combine connective nodes).toList, p node := by
  match nodes with
  | [] => exact each
  | [one] => exact each
  | first :: second :: rest =>
    intro node mem
    rw [List.mem_singleton.1 mem]
    exact join (by simp)

theorem Tree.combine_wellFormed (connective : Connective) {nodes : List Node}
    (each : ∀ node ∈ nodes, node.WellFormed) :
    ∀ node ∈ (combine connective nodes).toList, node.WellFormed :=
  forall_mem_combine connective (fun long => .join long each) each

/-- The nodes that come from a part of an expression. -/
def Phrase.nodes : Phrase → List Node
  | term one => one.tree.toList
  | terms all => termNodes all
  | branches all => branchNodes all

/-- The nodes of what is spelled by legible words are well formed. -/
theorem Spells.wellFormed {phrase : Phrase} (spell : Spells phrase words)
    (legible : ∀ word ∈ words, word.Legible) : ∀ node ∈ phrase.nodes, node.WellFormed := by
  induction spell with
  | @atom negated atom proper =>
    have legibleAtom := (List.forall_mem_append.1 legible).2
    cases atom with
    | comparison key test =>
      intro node mem
      rw [List.mem_singleton.1 mem]
      exact .leaf (printed_ofComparison proper legibleAtom)
    | _ => exact List.forall_mem_nil _
  | @group negated branches words _ ih =>
    have inner := Tree.combine_wellFormed .or
      (ih fun word mem => legible word (by simp [mem]))
    intro node mem
    simp only [Phrase.nodes, Term.tree, Option.mem_toList, Option.map_eq_some_iff] at mem
    obtain ⟨found, same, rfl⟩ := mem
    exact (inner found (Option.mem_toList.2 same)).negateIf negated
  | lone _ ih =>
    rw [Phrase.nodes, termNodes, termNodes, List.append_nil]
    exact ih legible
  | joined _ _ ihFirst ihRest | adjacent _ _ ihFirst ihRest =>
    exact List.forall_mem_append.2 ⟨ihFirst fun word mem => legible word (by simp [mem]),
      ihRest fun word mem => legible word (by simp [mem])⟩
  | only _ ih =>
    rw [Phrase.nodes, branchNodes, branchNodes, List.append_nil]
    exact Tree.combine_wellFormed .and (ih legible)
  | either _ _ ihFirst ihRest =>
    have first := Tree.combine_wellFormed .and
      (ihFirst fun word mem => legible word (by simp [mem]))
    exact List.forall_mem_append.2 ⟨first, ihRest fun word mem => legible word (by simp [mem])⟩

def Node.body : Node → String
  | leaf _ condition => condition.render
  | join _ connective children => Text.joinWith connective.separator (renderNodes children)

theorem Node.render_eq (node : Node) : node.render = negatedText node.negated node.body := by
  cases node <;> rw [render] <;> rfl

/-- A node as part of a longer text. -/
def Node.part : Node → String
  | join false connective children => "(" ++ render (join false connective children) ++ ")"
  | node => node.render

theorem renderNodes_eq_map (nodes : List Node) : renderNodes nodes = nodes.map Node.part := by
  induction nodes with
  | nil => rw [renderNodes, List.map_nil]
  | cons node nodes ih =>
    rw [List.map_cons, ← ih]
    match node with
    | .join false connective children => rw [renderNodes, Node.part]
    | .join true connective children => rw [renderNodes, Node.part] <;> simp
    | .leaf negated condition => rw [renderNodes, Node.part] <;> simp

/-- A node whose text as part of a longer one stands for a term with that node as its tree. -/
def Node.Spelled (node : Node) : Prop :=
  ∃ term words, Writes node.part words ∧ Spells (.term term) words ∧ term.tree = some node

/-- A node whose text without its negation stands for branches with that node as their tree. -/
def Node.BodySpelled (node : Node) : Prop :=
  ∃ branches words, Writes node.body words ∧ Spells (.branches branches) words ∧
    Tree.combine .or (branchNodes branches) = some (node.negateIf node.negated)

theorem Node.spelled_leaf {condition : Condition} (printed : condition.Printed) :
    (Node.leaf false condition).Spelled := by
  obtain ⟨key, test, rfl, shown, proper, whole⟩ := printed
  have spells : Spells (.term (.atom false (.comparison key test))) _ := .atom proper
  refine ⟨_, _, (Atom.writes whole).congr ?_, spells, rfl⟩
  rw [← shown, part, render]
  · rfl
  · simp

/-- A node in brackets stands for a group. -/
theorem Node.spelled_group (body : node.BodySpelled)
    (shown : node.part = negation node.negated ++ ("(" ++ node.body ++ ")")) : node.Spelled := by
  obtain ⟨branches, words, written, spells, tree⟩ := body
  have grouped := writes_negation node.negated written.parens
  have spelled : Spells (.term (.group node.negated branches)) _ := .group spells
  refine ⟨.group node.negated branches, _, shown ▸ grouped, by simpa using spelled, ?_⟩
  rw [Term.tree, tree]
  cases node <;> simp [negateIf, negated]

theorem Node.part_bracketed (bracketed : ∀ condition, node ≠ .leaf false condition) :
    node.part = negation node.negated ++ ("(" ++ node.body ++ ")") := by
  match node with
  | .join false connective children =>
    rw [part, render_eq]
    exact String.toList_injective (by simp [negatedText, negated, negation])
  | .join true connective children =>
    rw [part, render_eq]
    · exact String.toList_injective (by simp [negatedText, negated, negation])
    · simp
  | .leaf false condition => exact absurd rfl (bracketed condition)
  | .leaf true condition =>
    rw [part, render_eq]
    · exact String.toList_injective (by simp [negatedText, negated, negation])
    · simp

def Connective.kind : Connective → Kind
  | and => .and
  | or => .or

/-- Terms with a connective between them. -/
def Connective.phrase : Connective → List Term → Phrase
  | and, terms => .terms terms
  | or, terms => .branches (terms.map fun term => [term])

theorem Connective.nodes_phrase (connective : Connective) (terms : List Term) :
    (connective.phrase terms).nodes = termNodes terms := by
  cases connective with
  | and => rfl
  | or =>
    induction terms with
    | nil => rw [phrase, List.map_nil, Phrase.nodes, branchNodes, termNodes]
    | cons term terms ih =>
      have alone : Tree.combine .and (termNodes [term]) = term.tree := by
        rw [termNodes, termNodes]
        cases term.tree <;> rfl
      change branchNodes ([term] :: _) = _
      rw [branchNodes, alone, termNodes]
      exact congrArg _ ih

theorem Connective.spells_lone (connective : Connective) {term : Term}
    (spell : Spells (.term term) words) : Spells (connective.phrase [term]) words := by
  cases connective with
  | and => exact .lone spell
  | or => exact .only (.lone spell)

theorem Connective.spells_cons (connective : Connective) {term : Term} {terms : List Term}
    {first rest : List Word} (spellsFirst : Spells (.term term) first)
    (spellsRest : Spells (connective.phrase terms) rest) :
    Spells (connective.phrase (term :: terms)) (first ++ .fixed connective.kind :: rest) := by
  cases connective with
  | and => exact .joined spellsFirst spellsRest
  | or => exact .either (.lone spellsFirst) spellsRest

theorem Connective.writes_cons (connective : Connective) {first rest : String} {v w : List Word}
    (writesFirst : Writes first v) (writesRest : Writes rest w) :
    Writes (first ++ connective.separator ++ rest) (v ++ .fixed connective.kind :: w) := by
  cases connective with
  | and =>
    have and : Writes "AND" [.fixed .and] := .keyword (by decide +kernel) rfl
    exact (writesFirst.joined and writesRest).congr (by simp [separator])
  | or =>
    have or : Writes "OR" [.fixed .or] := .keyword (by decide +kernel) rfl
    exact (writesFirst.joined or writesRest).congr (by simp [separator])

/-- Nodes with a connective between them stand for their terms with it between them. -/
theorem Connective.spelled (connective : Connective) {nodes : List Node} (nonempty : nodes ≠ [])
    (each : ∀ node ∈ nodes, node.Spelled) :
    ∃ terms words, Writes (Text.joinWith connective.separator (nodes.map Node.part)) words ∧
      Spells (connective.phrase terms) words ∧ termNodes terms = nodes := by
  induction nodes with
  | nil => exact absurd rfl nonempty
  | cons node nodes ih =>
    obtain ⟨⟨term, first, writesFirst, spellsFirst, tree⟩, eachRest⟩ := List.forall_mem_cons.1 each
    have single : termNodes [term] = [node] := by
      rw [termNodes, termNodes, tree]
      rfl
    cases nodes with
    | nil => exact ⟨[term], first, writesFirst, connective.spells_lone spellsFirst, single⟩
    | cons second nodes =>
      obtain ⟨terms, rest, writesRest, spellsRest, same⟩ := ih (List.cons_ne_nil _ _) eachRest
      refine ⟨term :: terms, _, connective.writes_cons writesFirst writesRest,
        connective.spells_cons spellsFirst spellsRest, ?_⟩
      rw [termNodes, tree, same]
      rfl

theorem Tree.combine_long {connective : Connective} {nodes : List Node}
    (long : 2 ≤ nodes.length) : combine connective nodes = some (.join false connective nodes) := by
  match nodes with
  | first :: second :: rest => rfl

theorem Connective.combine_phrase (connective : Connective) (terms : List Term)
    (long : 2 ≤ (termNodes terms).length) :
    ∃ branches,
      (∀ words, Spells (connective.phrase terms) words → Spells (.branches branches) words) ∧
      Tree.combine .or (branchNodes branches) =
        some (.join false connective (termNodes terms)) := by
  cases connective with
  | and =>
    refine ⟨[terms], fun _ => .only, ?_⟩
    rw [branchNodes, branchNodes, Tree.combine_long long]
    rfl
  | or =>
    have same := nodes_phrase .or terms
    refine ⟨terms.map fun term => [term], fun _ => id, ?_⟩
    rw [← Tree.combine_long long, ← same]
    rfl

theorem Node.bodySpelled_leaf {negated : Bool} {condition : Condition}
    (printed : condition.Printed) : (Node.leaf negated condition).BodySpelled := by
  obtain ⟨term, words, written, spells, tree⟩ := spelled_leaf printed
  refine ⟨[[term]], words, written.congr ?_, .only (.lone spells), ?_⟩
  · rw [part, render]
    · rfl
    · simp
  · rw [branchNodes, branchNodes, termNodes, termNodes, tree]
    simp [Tree.combine, negateIf, Node.negated]

theorem Node.bodySpelled_join {negated : Bool} {connective : Connective} {children : List Node}
    (long : 2 ≤ children.length) (each : ∀ child ∈ children, child.Spelled) :
    (Node.join negated connective children).BodySpelled := by
  have nonempty : children ≠ [] := by
    rintro rfl
    cases long
  obtain ⟨terms, words, written, spells, rfl⟩ := connective.spelled nonempty each
  obtain ⟨branches, spelled, tree⟩ := connective.combine_phrase terms long
  refine ⟨branches, words, ?_, spelled words spells, ?_⟩
  · rwa [body, renderNodes_eq_map]
  · rw [tree]
    simp [negateIf, Node.negated]

/-- The text of a well-formed node as part of a longer one stands for it. -/
theorem Node.spelled_of_body (well : node.WellFormed) (body : node.BodySpelled) : node.Spelled := by
  cases well with
  | @leaf negated condition printed =>
    cases negated with
    | false => exact spelled_leaf printed
    | true => exact spelled_group body (part_bracketed (by simp))
  | join long each => exact spelled_group body (part_bracketed (by simp))

/-- A well-formed node is printed as text that stands for it. -/
theorem Node.WellFormed.bodySpelled (well : node.WellFormed) : node.BodySpelled := by
  -- A child stands for a term because its body stands for branches, so the body carries the
  -- induction.
  induction well with
  | leaf printed => exact bodySpelled_leaf printed
  | join long each ih =>
    exact bodySpelled_join long fun child mem => spelled_of_body (each child mem) (ih child mem)

/-- A well-formed tree is printed as text that stands for a filter with that tree. -/
theorem Tree.spelled (well : ∀ node ∈ tree.toList, node.WellFormed) :
    ∃ query words, Writes tree.render words ∧ Query.Spelled query words ∧
      Query.tree query = tree := by
  cases tree with
  | none => exact ⟨none, [], .empty, rfl, rfl⟩
  | some node =>
    have wellNode := well node (List.mem_singleton.2 rfl)
    have body := wellNode.bodySpelled
    -- Only a whole tree is printed without brackets: a negated one is a single term of its own.
    cases sign : node.negated with
    | false =>
      obtain ⟨branches, words, written, spells, tree⟩ := body
      refine ⟨some branches, words, written.congr ?_, spells, ?_⟩
      · rw [render, Option.elim_some, Node.render_eq, sign]
        rfl
      · rw [Query.tree, Option.bind_some, tree, sign]
        cases node <;> simp [Node.negateIf]
    | true =>
      obtain ⟨term, words, written, spells, tree⟩ := Node.spelled_of_body wellNode body
      refine ⟨some [[term]], words, written.congr ?_, .only (.lone spells), ?_⟩
      · rw [render, Option.elim_some, Node.part]
        rintro connective children rfl
        cases sign
      · rw [Query.tree, Option.bind_some, branchNodes, branchNodes, termNodes, termNodes, tree]
        rfl

mutual

/-- The places of keys do not matter to the tree. -/
theorem Term.tree_unplaced : ∀ term : Term, term.unplaced.tree = term.tree
  | .atom negated atom => by cases atom <;> rfl
  | .group negated branches => by
    rw [Term.unplaced, Term.tree, Term.tree, branchNodes_unplaced branches]

theorem branchNodes_unplaced : ∀ branches : List (List Term),
    branchNodes (unplacedBranches branches) = branchNodes branches
  | [] => rfl
  | terms :: rest => by
    rw [unplacedBranches, branchNodes, branchNodes, termNodes_unplaced terms,
      branchNodes_unplaced rest]

theorem termNodes_unplaced : ∀ terms : List Term,
    termNodes (unplacedTerms terms) = termNodes terms
  | [] => rfl
  | term :: rest => by
    rw [unplacedTerms, termNodes, termNodes, Term.tree_unplaced term, termNodes_unplaced rest]

end

theorem Query.tree_unplaced (query : Query) : Query.tree query.unplaced = query.tree := by
  cases query with
  | none => rfl
  | some branches => exact congrArg (Tree.combine .or) (branchNodes_unplaced branches)

theorem Query.Spelled.wellFormed {query : Query} (spelled : query.Spelled words)
    (legible : ∀ word ∈ words, word.Legible) :
    ∀ node ∈ (Query.tree query).toList, node.WellFormed := by
  cases query with
  | none => exact List.forall_mem_nil _
  | some branches => exact Tree.combine_wellFormed .or (Spells.wellFormed spelled legible)

theorem extract_eq_ok {text : String} :
    extract text = .ok tree ↔ ∃ query, parse text = .ok query ∧ Query.tree query = tree := by
  rw [extract]
  cases parse text with
  | error errors => simp [Except.map]
  | ok query => simp [Except.map]

/-- A logical tree whose numbers are finite is extracted again from its own text, the same in all
its joinings, negations, keys, operators and values. -/
theorem extract_render {text : String} {tree : Tree} (ok : extract text = .ok tree)
    (finite : ∀ token ∈ (lex text).tokens, token.word.Finite) :
    extract tree.render = .ok tree := by
  obtain ⟨query, parsed, rfl⟩ := extract_eq_ok.1 ok
  obtain ⟨accepted, rfl⟩ := parse_eq_ok.1 parsed
  obtain ⟨clean, spelled⟩ := read_sound accepted
  have whole := (cuts_iff.2 ⟨clean, rfl⟩).whole
  have legible : ∀ word ∈ (lex text).tokens.map Token.word, word.Legible := by
    intro word mem
    obtain ⟨token, among, rfl⟩ := List.mem_map.1 mem
    exact ⟨whole _ mem, finite token among⟩
  obtain ⟨query, words, written, spells, same⟩ := Tree.spelled (spelled.wellFormed legible)
  obtain ⟨again, found, unplaced⟩ := parse_of_writes written spells
  refine extract_eq_ok.2 ⟨again, found, ?_⟩
  rw [← same, ← Query.tree_unplaced again, unplaced, Query.tree_unplaced query]

/-- A search leaves no condition, a doubled negation goes away and values are written anew. -/
theorem extract_render_loose :
    let text := "x not(not(resource.a:string==b or y between -1.50e1 and TRUE)) (z in'c') 'w'"
    ∃ tree, extract text = .ok tree ∧
      Tree.render tree = "(resource.a:string = 'b' OR y BETWEEN -15 AND true) AND z IN ('c')" ∧
      extract (Tree.render tree) = .ok tree := by
  intro text
  obtain ⟨accepted, shown, finite⟩ : (read text).errors = [] ∧
      Tree.render (Query.tree (read text).query) =
        "(resource.a:string = 'b' OR y BETWEEN -15 AND true) AND z IN ('c')" ∧
      ∀ token ∈ (lex text).tokens, token.word.Finite := by decide +kernel
  have ok : extract text = .ok (Query.tree (read text).query) :=
    extract_eq_ok.2 ⟨_, parse_eq_ok.2 ⟨accepted, rfl⟩, rfl⟩
  exact ⟨_, ok, shown, extract_render ok finite⟩

end TelemetryQuery.Filter
