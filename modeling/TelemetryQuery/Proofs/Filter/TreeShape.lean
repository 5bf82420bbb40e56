import TelemetryQuery.Proofs.Filter.Truth
import TelemetryQuery.Session.Render
/- The shape of logical trees, and of the documents that show them. -/
namespace TelemetryQuery.Filter

/-- A node whose joinings, down to its leaves, join two nodes at least. -/
inductive Node.Branching : Node → Prop
  | leaf {negated : Bool} {condition : Condition} : Branching (.leaf negated condition)
  | join {negated : Bool} {connective : Connective} {children : List Node} :
      2 ≤ children.length → (∀ child ∈ children, Branching child) →
      Branching (.join negated connective children)

theorem Node.Branching.negateIf {node : Node} (branching : node.Branching) (flip : Bool) :
    (node.negateIf flip).Branching := by
  cases branching with
  | leaf => exact .leaf
  | join long each => exact .join long each

theorem Tree.combine_branching (connective : Connective) {nodes : List Node}
    (each : ∀ node ∈ nodes, node.Branching) :
    ∀ node ∈ (combine connective nodes).toList, node.Branching :=
  forall_mem_combine connective (fun long => .join long each) each

mutual

theorem Term.tree_branching : ∀ term : Term, ∀ node ∈ term.tree.toList, node.Branching
  | .atom negated atom => by
    cases atom with
    | comparison key test => exact List.forall_mem_singleton.2 .leaf
    | _ => exact List.forall_mem_nil _
  | .group negated branches => by
    have inner := Tree.combine_branching .or (branchNodes_branching branches)
    intro node mem
    simp only [Term.tree, Option.mem_toList, Option.map_eq_some_iff] at mem
    obtain ⟨found, same, rfl⟩ := mem
    exact (inner found (Option.mem_toList.2 same)).negateIf negated

theorem branchNodes_branching : ∀ branches : List (List Term),
    ∀ node ∈ branchNodes branches, node.Branching
  | [] => List.forall_mem_nil _
  | terms :: rest => List.forall_mem_append.2
      ⟨Tree.combine_branching .and (termNodes_branching terms), branchNodes_branching rest⟩

theorem termNodes_branching : ∀ terms : List Term, ∀ node ∈ termNodes terms, node.Branching
  | [] => List.forall_mem_nil _
  | term :: rest => List.forall_mem_append.2 ⟨term.tree_branching, termNodes_branching rest⟩

end

theorem Query.tree_branching (query : Query) :
    ∀ node ∈ (Query.tree query).toList, node.Branching := by
  cases query with
  | none => exact List.forall_mem_nil _
  | some branches => exact Tree.combine_branching .or (branchNodes_branching branches)

/-- A node has a condition somewhere, since its joinings are not empty. -/
theorem Node.Branching.conditions_ne_nil {node : Node} (branching : node.Branching) :
    node.conditions ≠ [] := by
  induction branching with
  | leaf => simp [Node.conditions]
  | @join negated connective children long each ih =>
    match children with
    | first :: rest => simp [Node.conditions, nodesConditions, ih first]

theorem Tree.eq_none_iff {tree : Tree} (branching : ∀ node ∈ tree.toList, node.Branching) :
    tree = none ↔ tree.conditions = [] := by
  cases tree with
  | none => simp [Tree.conditions]
  | some node =>
    have filled := (branching node (by simp)).conditions_ne_nil
    simp [Tree.conditions, filled]

theorem Query.tree_eq_none_iff (query : Query) :
    Query.tree query = none ↔ query.comparisons = [] := by
  rw [Tree.eq_none_iff query.tree_branching, Query.conditions_tree, ← List.length_eq_zero_iff,
    length_conditions, List.length_eq_zero_iff]
  rfl

/-- What the document of a node lists under a name. A list that is left out is empty. -/
def listed (name : String) (document : Json) : List Json :=
  ((document.member? name).bind Json.items?).getD []

/-- A document that shows a node: a leaf has one condition and no children, and a joining has two
children at least, which are such documents again, and no conditions. -/
inductive Shaped : Json → Prop
  | leaf {document : Json} : document.member? "op" = some (.str "LEAF") →
      (listed "conditions" document).length = 1 → listed "children" document = [] →
      Shaped document
  | join {document : Json} {op : String} : op = "AND" ∨ op = "OR" →
      document.member? "op" = some (.str op) → listed "conditions" document = [] →
      2 ≤ (listed "children" document).length →
      (∀ child ∈ listed "children" document, Shaped child) → Shaped document

/-- A document that shows a leaf which is not negated and holds nothing. -/
structure EmptyLeaf (document : Json) : Prop where
  op : document.member? "op" = some (.str "LEAF")
  negated : document.member? "negated" = some (.bool false)
  conditions : listed "conditions" document = []
  children : listed "children" document = []

theorem Node.listToJson_eq_map (nodes : List Node) : listToJson nodes = nodes.map Node.toJson := by
  induction nodes with
  | nil => rw [listToJson, List.map_nil]
  | cons node nodes ih => rw [listToJson, ih, List.map_cons]

theorem Node.toJson_join (negated : Bool) (connective : Connective) (children : List Node) :
    ∃ op, (op = "AND" ∨ op = "OR") ∧ toJson (.join negated connective children) =
      .obj [("op", .str op), ("negated", .bool negated),
        ("children", .arr (children.map toJson))] := by
  rw [← listToJson_eq_map]
  cases connective with
  | and => exact ⟨"AND", .inl rfl, by rw [toJson]⟩
  | or => exact ⟨"OR", .inr rfl, by rw [toJson]⟩

theorem Node.Branching.shaped {node : Node} (branching : node.Branching) :
    Shaped node.toJson := by
  induction branching with
  | leaf =>
    rw [Node.toJson]
    exact .leaf rfl rfl rfl
  | @join negated connective children long each ih =>
    obtain ⟨op, named, shown⟩ := Node.toJson_join negated connective children
    have many : 2 ≤ (children.map Node.toJson).length := by simpa using long
    have shapes : ∀ child ∈ children.map Node.toJson, Shaped child := by simpa using ih
    rw [shown]
    exact .join named rfl rfl many shapes

theorem Shaped.not_emptyLeaf {document : Json} (shaped : Shaped document) :
    ¬EmptyLeaf document := by
  intro empty
  cases shaped with
  | leaf _ one _ => simp [empty.conditions] at one
  | join _ _ _ long _ => simp [empty.children] at long

theorem Tree.emptyLeaf_iff {tree : Tree} (branching : ∀ node ∈ tree.toList, node.Branching) :
    EmptyLeaf tree.toJson ↔ tree = none := by
  cases tree with
  | none => exact iff_of_true ⟨rfl, rfl, rfl, rfl⟩ rfl
  | some node =>
    have shaped : Shaped node.toJson := (branching node (by simp)).shaped
    exact iff_of_false shaped.not_emptyLeaf (by simp)

/-- The logical tree of a filter text is empty if and only if the filter has no comparison, and all
its joinings join two nodes at least. In the document that shows it, each leaf has one condition and
no children, and each joining has two children at least and no conditions. Only the empty tree is
shown as a leaf that holds nothing, and it is not negated. -/
theorem extract_shape {text : String} {tree : Tree} (ok : extract text = .ok tree) :
    ∃ query, parse text = .ok query ∧
      (tree = none ↔ query.comparisons = []) ∧ (∀ node ∈ tree, node.Branching) ∧
      (EmptyLeaf tree.toJson ↔ query.comparisons = []) ∧
      (query.comparisons ≠ [] → Shaped tree.toJson) := by
  obtain ⟨query, parsed, rfl⟩ := extract_eq_ok.1 ok
  have branching := query.tree_branching
  have empty := query.tree_eq_none_iff
  refine ⟨query, parsed, empty, fun node mem => branching node (Option.mem_toList.2 mem),
    (Tree.emptyLeaf_iff branching).trans empty, fun compared => ?_⟩
  cases found : Query.tree query with
  | none => exact absurd (empty.1 found) compared
  | some node => exact (branching node (by simp [found])).shaped

/-- Under the negation only one of two terms is left. -/
theorem extract_shape_nested :
    let text := "NOT ('x' or NOT (a=b or c IN [d])) NOT (e EXISTS)"
    ∃ tree, extract text = .ok tree ∧
      Tree.render tree = "(a = 'b' OR c IN ('d')) AND NOT (e EXISTS)" ∧
      Shaped (Tree.toJson tree) := by
  intro text
  obtain ⟨accepted, shown, length⟩ : (read text).errors = [] ∧
      Tree.render (Query.tree (read text).query) =
        "(a = 'b' OR c IN ('d')) AND NOT (e EXISTS)" ∧
      (Query.comparisons (read text).query).length = 3 := by decide +kernel
  have parsed : parse text = .ok (read text).query := parse_eq_ok.2 ⟨accepted, rfl⟩
  have ok : extract text = .ok (Query.tree (read text).query) :=
    extract_eq_ok.2 ⟨_, parsed, rfl⟩
  obtain ⟨query, again, -, -, -, shaped⟩ := extract_shape ok
  obtain rfl : (read text).query = query := (parse_eq_ok.1 again).2
  refine ⟨_, ok, shown, shaped fun none => ?_⟩
  simp [none] at length

end TelemetryQuery.Filter
