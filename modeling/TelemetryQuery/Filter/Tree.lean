import TelemetryQuery.Filter.Condition
import TelemetryQuery.Filter.Parser
/- The logical tree of a filter: its conditions, joined and negated. -/
namespace TelemetryQuery.Filter

inductive Connective where
  | and
  | or
deriving DecidableEq, Repr, Inhabited

/-- A node of a logical tree: a condition or a joining of nodes, negated or not. -/
inductive Node where
  | leaf (negated : Bool) (condition : Condition)
  | join (negated : Bool) (connective : Connective) (children : List Node)
deriving Repr, Inhabited

/-- The logical tree of a filter; one without conditions is empty and always true. -/
abbrev Tree :=
  Option Node

def Node.negated : Node → Bool
  | leaf negated _ => negated
  | join negated _ _ => negated

/-- The node with its negation flipped if a flag is set. -/
def Node.negateIf (flip : Bool) : Node → Node
  | leaf negated condition => leaf (negated != flip) condition
  | join negated connective children => join (negated != flip) connective children

/-- Joins nodes: none make the empty tree, and one stays as it is. -/
def Tree.combine (connective : Connective) : List Node → Tree
  | [] => none
  | [node] => some node
  | nodes => some (.join false connective nodes)

mutual

/-- The logical tree of a term. Searches and calls have no conditions and leave nothing. -/
def Term.tree : Term → Tree
  | .atom negated (.comparison key test) =>
    some (.leaf negated (.ofComparison key test))
  | .atom _ _ => none
  | .group negated branches =>
    (Tree.combine .or (branchNodes branches)).map (Node.negateIf negated)

def branchNodes : List (List Term) → List Node
  | [] => []
  | terms :: rest => (Tree.combine .and (termNodes terms)).toList ++ branchNodes rest

def termNodes : List Term → List Node
  | [] => []
  | term :: rest => term.tree.toList ++ termNodes rest

end

def Query.tree (query : Query) : Tree :=
  query.bind fun branches => Tree.combine .or (branchNodes branches)

/-- The logical tree of a filter text, or the errors in it. -/
def extract (text : String) : Except (List SyntaxError) Tree :=
  (parse text).map Query.tree

mutual

/-- The conditions of a node, from left to right. -/
def Node.conditions : Node → List Condition
  | .leaf _ condition => [condition]
  | .join _ _ children => nodesConditions children

def nodesConditions : List Node → List Condition
  | [] => []
  | node :: rest => node.conditions ++ nodesConditions rest

end

def Tree.conditions (tree : Tree) : List Condition :=
  tree.elim [] Node.conditions

def Connective.separator : Connective → String
  | and => " AND "
  | or => " OR "

/-- A negated text in brackets. -/
def negatedText (negated : Bool) (body : String) : String :=
  if negated then "NOT (" ++ body ++ ")" else body

mutual

def Node.render : Node → String
  | .leaf negated condition => negatedText negated condition.render
  | .join negated connective children =>
    negatedText negated (Text.joinWith connective.separator (renderNodes children))

/-- Nodes as parts of a longer text: a joining that is not negated stands in brackets. -/
def renderNodes : List Node → List String
  | [] => []
  | .join false connective children :: rest =>
    ("(" ++ Node.render (.join false connective children) ++ ")") :: renderNodes rest
  | node :: rest => node.render :: renderNodes rest

end

def Tree.render (tree : Tree) : String :=
  tree.elim "" Node.render

end TelemetryQuery.Filter
