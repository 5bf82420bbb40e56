import TelemetryQuery.Sql.Fragment
/- Conditions on records, joined and negated. -/
namespace TelemetryQuery.Where

/-- A condition on records: SQL that is taken as a whole, or a joining of others. -/
inductive Predicate where
  | atom (fragment : Sql.Fragment)
  | all (parts : List Predicate)
  | any (parts : List Predicate)
  | group (inner : Predicate)
  | not (inner : Predicate)
deriving Repr, Inhabited

namespace Predicate

/-- Joins predicates: none are nothing, and one stays as it is. -/
def join? (make : List Predicate → Predicate) : List Predicate → Option Predicate
  | [] => none
  | [predicate] => some predicate
  | predicates => some (make predicates)

mutual

def fragment : Predicate → Sql.Fragment
  | .atom fragment => fragment
  | .all parts => .connect "AND" (fragments parts)
  | .any parts => .connect "OR" (fragments parts)
  | .group inner => .text "(" :: inner.fragment ++ [.text ")"]
  | .not inner => .text "NOT (" :: inner.fragment ++ [.text ")"]

def fragments : List Predicate → List Sql.Fragment
  | [] => []
  | predicate :: rest => predicate.fragment :: fragments rest

end

end Predicate

end TelemetryQuery.Where
