import TelemetryQuery.Proofs.Filter.Pruning
import TelemetryQuery.Proofs.Filter.Tree
import Mathlib.Data.List.Flatten
/- A logical tree is true when the filter that it was taken from is true. -/
namespace TelemetryQuery.Filter

variable {truths : List Bool}

/-- The condition of an atom. Only comparisons have one. -/
def Atom.condition? : Atom → Option Condition
  | comparison key test => some (.ofComparison key test)
  | _ => none

def Atom.isComparison (atom : Atom) : Bool :=
  atom.condition?.isSome

def comparisonsIn (atoms : List Atom) : List Atom :=
  atoms.filter Atom.isComparison

/-- The comparisons of a filter, from left to right. -/
def Query.comparisons (query : Query) : List Atom :=
  comparisonsIn query.atoms

/-- A filter without the terms that are no comparisons. -/
def Query.compared (query : Query) : Query :=
  query.prune fun atom => !atom.isComparison

mutual

def Term.holds (truth : Atom → Bool) : Term → Bool
  | .atom negated atom => negated != truth atom
  | .group negated branches => negated != branchesHold truth branches

def branchesHold (truth : Atom → Bool) : List (List Term) → Bool
  | [] => false
  | terms :: rest => termsHold truth terms || branchesHold truth rest

def termsHold (truth : Atom → Bool) : List Term → Bool
  | [] => true
  | term :: rest => term.holds truth && termsHold truth rest

end

/-- Whether a filter is true; an empty one is. -/
def Query.holds (truth : Atom → Bool) (query : Query) : Bool :=
  query.elim true (branchesHold truth)

/-- What a connective makes of the truth values that it joins. -/
def Connective.holds : Connective → List Bool → Bool
  | and, values => values.all id
  | or, values => values.any id

mutual

/-- Whether a node is true, given whether its conditions are, from left to right. Two conditions
that say the same may be given different truth values. -/
def Node.holds : Node → List Bool → Bool
  | .leaf negated _, truths => negated != truths.headD true
  | .join negated connective children, truths =>
    negated != connective.holds (nodeValues children truths)

def nodeValues : List Node → List Bool → List Bool
  | [], _ => []
  | node :: rest, truths =>
    let own := node.conditions.length
    node.holds (truths.take own) :: nodeValues rest (truths.drop own)

end

/-- Whether a logical tree is true; the empty one is. -/
def Tree.holds (tree : Tree) (truths : List Bool) : Bool :=
  tree.elim true fun node => node.holds truths

section Conditions

theorem nodesConditions_append (first rest : List Node) :
    nodesConditions (first ++ rest) = nodesConditions first ++ nodesConditions rest := by
  induction first with
  | nil => simp [nodesConditions]
  | cons node nodes ih => simp [nodesConditions, ih]

@[simp]
theorem Node.conditions_negateIf (node : Node) (flip : Bool) :
    (node.negateIf flip).conditions = node.conditions := by
  cases node <;> simp [negateIf, Node.conditions]

/-- Joining nodes leaves their conditions as they are. -/
@[simp]
theorem Tree.conditions_combine (connective : Connective) (nodes : List Node) :
    nodesConditions (combine connective nodes).toList = nodesConditions nodes := by
  match nodes with
  | [] => rfl
  | [node] => rfl
  | first :: second :: rest => simp [combine, nodesConditions, Node.conditions]

theorem nodesConditions_toList (tree : Tree) : nodesConditions tree.toList = tree.conditions := by
  cases tree <;> simp [nodesConditions, Tree.conditions]

mutual

/-- The conditions of a term's tree are those of its comparisons, in their order. -/
theorem Term.conditions_tree : ∀ term : Term,
    nodesConditions term.tree.toList = term.atoms.filterMap Atom.condition?
  | .atom negated atom => by
    cases atom <;> simp [Term.tree, Term.atoms, Atom.condition?, nodesConditions, Node.conditions]
  | .group negated branches => by
    have inner := (Tree.conditions_combine .or _).trans (conditions_branchNodes branches)
    rw [Term.tree, Term.atoms, ← inner]
    cases Tree.combine .or (branchNodes branches) <;> simp [nodesConditions]

theorem conditions_branchNodes : ∀ branches : List (List Term),
    nodesConditions (branchNodes branches) = (branchesAtoms branches).filterMap Atom.condition?
  | [] => by simp [branchNodes, branchesAtoms, nodesConditions]
  | terms :: rest => by
    rw [branchNodes, branchesAtoms, nodesConditions_append, Tree.conditions_combine,
      conditions_termNodes terms, conditions_branchNodes rest, List.filterMap_append]

theorem conditions_termNodes : ∀ terms : List Term,
    nodesConditions (termNodes terms) = (termsAtoms terms).filterMap Atom.condition?
  | [] => by simp [termNodes, termsAtoms, nodesConditions]
  | term :: rest => by
    rw [termNodes, termsAtoms, nodesConditions_append, Term.conditions_tree term,
      conditions_termNodes rest, List.filterMap_append]

end

theorem Query.conditions_tree (query : Query) :
    (Query.tree query).conditions = query.atoms.filterMap Atom.condition? := by
  rw [← nodesConditions_toList]
  cases query with
  | none => rfl
  | some branches =>
    rw [Query.tree, Option.bind_some, Tree.conditions_combine, conditions_branchNodes]
    rfl

/-- Every comparison has its condition, and the two lists are aligned. -/
theorem map_some_conditions (atoms : List Atom) :
    (atoms.filterMap Atom.condition?).map some = (comparisonsIn atoms).map Atom.condition? := by
  induction atoms with
  | nil => rfl
  | cons atom atoms ih =>
    rw [comparisonsIn] at ih ⊢
    cases found : atom.condition? with
    | none => simp [Atom.isComparison, found, ih]
    | some condition => simp [Atom.isComparison, found, ih]

theorem length_conditions (atoms : List Atom) :
    (atoms.filterMap Atom.condition?).length = (comparisonsIn atoms).length := by
  simpa using congrArg List.length (map_some_conditions atoms)

end Conditions

section Values

variable (truth : Atom → Bool)

theorem termsHold_eq (terms : List Term) :
    termsHold truth terms = Connective.and.holds (terms.map (Term.holds truth)) := by
  induction terms with
  | nil => simp [termsHold, Connective.holds]
  | cons term terms ih => simp [termsHold, ih, Connective.holds]

theorem branchesHold_eq (branches : List (List Term)) :
    branchesHold truth branches = Connective.or.holds (branches.map (termsHold truth)) := by
  induction branches with
  | nil => simp [branchesHold, Connective.holds]
  | cons terms branches ih => simp [branchesHold, ih, Connective.holds]

theorem nonempty?_map {α β : Type} (f : α → β) (items : List α) :
    nonempty? (items.map f) = (nonempty? items).map (List.map f) := by
  cases items <;> rfl

theorem Connective.holds_singleton (connective : Connective) (value : Bool) :
    connective.holds [value] = value := by
  cases connective <;> simp [holds]

theorem Node.holds_negateIf (node : Node) (flip : Bool) (truths : List Bool) :
    (node.negateIf flip).holds truths = (flip != node.holds truths) := by
  cases node with
  | leaf negated condition =>
    simp only [negateIf, Node.holds]
    cases negated <;> cases flip <;> simp
  | join negated connective children =>
    simp only [negateIf, Node.holds]
    cases negated <;> cases flip <;> simp

/-- Each node looks at the truth values of its own conditions only. -/
theorem nodeValues_append {first : List Node} (rest : List Node) (more : List Bool)
    (each : truths.length = (nodesConditions first).length) :
    nodeValues (first ++ rest) (truths ++ more) =
      nodeValues first truths ++ nodeValues rest more := by
  induction first generalizing truths with
  | nil =>
    obtain rfl : truths = [] := by simpa [nodesConditions] using each
    simp [nodeValues]
  | cons node nodes ih =>
    rw [nodesConditions, List.length_append] at each
    have within : node.conditions.length ≤ truths.length := by omega
    simp only [List.cons_append, nodeValues, List.take_append_of_le_length within,
      List.drop_append_of_le_length within]
    rw [ih (by simp [each])]

theorem nodeValues_singleton {node : Node} (each : truths.length = node.conditions.length) :
    nodeValues [node] truths = [node.holds truths] := by
  simp [nodeValues, ← each]

/-- Nodes that are joined have the joined value, also if nothing or only one is left to join. -/
theorem nodeValues_combine (connective : Connective) {nodes : List Node}
    (each : truths.length = (nodesConditions nodes).length) :
    nodeValues (Tree.combine connective nodes).toList truths =
      ((nonempty? (nodeValues nodes truths)).map connective.holds).toList := by
  match nodes with
  | [] => simp [Tree.combine, nodeValues, nonempty?]
  | [node] => simp [Tree.combine, nodeValues, nonempty?, Connective.holds_singleton]
  | first :: second :: rest =>
    have own : truths.length =
        (Node.join false connective (first :: second :: rest)).conditions.length := by
      rwa [Node.conditions]
    change nodeValues [.join false connective (first :: second :: rest)] truths = _
    rw [nodeValues_singleton own, Node.holds]
    simp [nodeValues, nonempty?]

theorem nodeValues_negateIf (flip : Bool) (tree : Tree) (truths : List Bool) :
    nodeValues (tree.map (Node.negateIf flip)).toList truths =
      (nodeValues tree.toList truths).map (flip != ·) := by
  cases tree <;> simp [nodeValues, Node.holds_negateIf]

theorem truths_append (first rest : List Atom) :
    (comparisonsIn (first ++ rest)).map truth =
      (comparisonsIn first).map truth ++ (comparisonsIn rest).map truth := by
  simp [comparisonsIn]

theorem length_truths {nodes : List Node} {atoms : List Atom}
    (same : nodesConditions nodes = atoms.filterMap Atom.condition?) :
    ((comparisonsIn atoms).map truth).length = (nodesConditions nodes).length := by
  rw [same, length_conditions, List.length_map]

mutual

/-- The nodes of a term have the values of the terms that are left of it. -/
theorem Term.nodeValues_tree : ∀ term : Term,
    nodeValues term.tree.toList ((comparisonsIn term.atoms).map truth) =
      ((term.prune fun atom => !atom.isComparison).map (Term.holds truth)).toList
  | .atom negated atom => by
    cases atom <;> rfl
  | .group negated branches => by
    rw [Term.tree, Term.atoms, nodeValues_negateIf,
      nodeValues_combine .or (length_truths truth (conditions_branchNodes branches)),
      nodeValues_branchNodes branches, nonempty?_map, Term.prune]
    cases nonempty? (pruneBranches (fun atom => !atom.isComparison) branches) <;>
      simp [Term.holds, branchesHold_eq]

theorem nodeValues_branchNodes : ∀ branches : List (List Term),
    nodeValues (branchNodes branches) ((comparisonsIn (branchesAtoms branches)).map truth) =
      (pruneBranches (fun atom => !atom.isComparison) branches).map (termsHold truth)
  | [] => by simp [branchNodes, nodeValues, pruneBranches]
  | terms :: rest => by
    -- The truth values are split where the comparisons of the first branch end.
    have each := length_truths truth (conditions_termNodes terms)
    rw [branchNodes, branchesAtoms, truths_append, nodeValues_append _ _ (by simpa using each),
      nodeValues_combine .and each, nodeValues_termNodes terms, nodeValues_branchNodes rest,
      nonempty?_map, pruneBranches, List.map_append]
    cases nonempty? (pruneTerms (fun atom => !atom.isComparison) terms) <;>
      simp [termsHold_eq]

theorem nodeValues_termNodes : ∀ terms : List Term,
    nodeValues (termNodes terms) ((comparisonsIn (termsAtoms terms)).map truth) =
      (pruneTerms (fun atom => !atom.isComparison) terms).map (Term.holds truth)
  | [] => by simp [termNodes, nodeValues, pruneTerms]
  | term :: rest => by
    rw [termNodes, termsAtoms, truths_append,
      nodeValues_append _ _ (length_truths truth term.conditions_tree),
      Term.nodeValues_tree term, nodeValues_termNodes rest, pruneTerms, List.map_append]
    cases term.prune (fun atom => !atom.isComparison) <;> simp

end

theorem Tree.holds_eq_headD {tree : Tree} (each : truths.length = tree.conditions.length) :
    tree.holds truths = (nodeValues tree.toList truths).headD true := by
  cases tree with
  | none => rfl
  | some node =>
    rw [Option.toList_some, nodeValues_singleton each]
    rfl

/-- The tree of a filter has the value of what is left of the filter. -/
theorem Query.tree_holds (query : Query) :
    (Query.tree query).holds (query.comparisons.map truth) = query.compared.holds truth := by
  have each : (query.comparisons.map truth).length = (Query.tree query).conditions.length := by
    rw [Query.conditions_tree, length_conditions, List.length_map]
    rfl
  rw [Tree.holds_eq_headD each]
  cases query with
  | none => rfl
  | some branches =>
    have values := nodeValues_combine .or (length_truths truth (conditions_branchNodes branches))
    rw [nodeValues_branchNodes truth branches, nonempty?_map] at values
    rw [Query.tree, Option.bind_some]
    refine (congrArg (List.headD · true) values).trans ?_
    rw [Query.compared, Query.prune, Option.bind_some]
    cases nonempty? (pruneBranches (fun atom => !atom.isComparison) branches) <;>
      simp [Query.holds, branchesHold_eq]

end Values

/-- The atoms of what is spelled stand in the words in their order. -/
theorem Spells.atoms_sublist {phrase : Phrase} {words : List Word} (spells : Spells phrase words) :
    (phrase.atoms.flatMap Atom.words).Sublist words := by
  induction spells with
  | atom _ => simp [Phrase.atoms, Term.atoms]
  | @group negated branches words _ ih =>
    have after : words.Sublist (.fixed .lparen :: (words ++ [.fixed .rparen])) :=
      (List.sublist_append_left words _).cons _
    rw [Phrase.atoms, Term.atoms, List.append_assoc]
    exact (ih.trans after).trans (List.sublist_append_right _ _)
  | lone _ ih => simpa [Phrase.atoms, termsAtoms] using ih
  | joined _ _ ihFirst ihRest =>
    rw [Phrase.atoms, termsAtoms, List.flatMap_append]
    exact ihFirst.append (ihRest.cons _)
  | adjacent _ _ ihFirst ihRest =>
    rw [Phrase.atoms, termsAtoms, List.flatMap_append]
    exact ihFirst.append ihRest
  | only _ ih => simpa [Phrase.atoms, branchesAtoms] using ih
  | either _ _ ihFirst ihRest =>
    rw [Phrase.atoms, branchesAtoms, List.flatMap_append]
    exact ihFirst.append (ihRest.cons _)

theorem parse_comparisons_sublist {text : String} {query : Query} (ok : parse text = .ok query) :
    (query.comparisons.flatMap Atom.words).Sublist ((lex text).tokens.map Token.word) := by
  obtain ⟨clean, rfl⟩ := parse_eq_ok.1 ok
  have kept : (Query.comparisons (read text).query).Sublist (Query.atoms (read text).query) :=
    List.filter_sublist
  refine (kept.flatMap Atom.words).trans ?_
  have spelled := (read_sound clean).2
  cases found : (read text).query with
  | none => exact List.nil_sublist _
  | some branches =>
    rw [found] at spelled
    exact Spells.atoms_sublist spelled

/-- The logical tree of a filter says what the filter says without its searches and calls. Whatever
the truth values of its comparisons are, each for itself, the tree has the value of what is left of
the filter, and its conditions are those of the comparisons, in their order in the text. -/
theorem tree_means_comparisons {text : String} {query : Query} (ok : parse text = .ok query) :
    (∀ truth : Atom → Bool,
      (Query.tree query).holds (query.comparisons.map truth) = query.compared.holds truth) ∧
    (Query.tree query).conditions.map some = query.comparisons.map Atom.condition? ∧
    (query.comparisons.flatMap Atom.words).Sublist ((lex text).tokens.map Token.word) := by
  refine ⟨fun truth => Query.tree_holds truth query, ?_, parse_comparisons_sublist ok⟩
  rw [Query.conditions_tree, map_some_conditions]
  rfl

/-- A group is left with one comparison under two negations, and another one is left with none. -/
theorem tree_means_comparisons_nested :
    let text := "x NOT (NOT (a=b or 'w') has(b,c)) or NOT (y) or NOT a=b"
    ∃ query, parse text = .ok query ∧ Tree.render (Query.tree query) = "a = 'b' OR NOT (a = 'b')" ∧
      query.comparisons.length = 2 ∧
      ∀ truth : Atom → Bool,
        (Query.tree query).holds (query.comparisons.map truth) = query.compared.holds truth := by
  intro text
  obtain ⟨accepted, shown, length⟩ : (read text).errors = [] ∧
      Tree.render (Query.tree (read text).query) = "a = 'b' OR NOT (a = 'b')" ∧
      (Query.comparisons (read text).query).length = 2 := by decide +kernel
  have ok : parse text = .ok (read text).query := parse_eq_ok.2 ⟨accepted, rfl⟩
  exact ⟨_, ok, shown, length, (tree_means_comparisons ok).1⟩

end TelemetryQuery.Filter
