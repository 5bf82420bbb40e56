import TelemetryQuery.Field.Catalog
import TelemetryQuery.Number.Basic
/- How alike two names are, and which known name is meant by an unknown one. -/
namespace TelemetryQuery.Field

/-- The distances of a longer text to all starts of another, from those of the text without its
last character. `left` is the distance to the start that ends before the first of `b`. -/
def nextDistances (c : Char) (left : Nat) : List Char → List Nat → List Nat
  | d :: b, above :: right :: rest =>
    let substituted := above + if c = d then 0 else 1
    let distance := min (min substituted (right + 1)) (left + 1)
    distance :: nextDistances c distance b (right :: rest)
  | _, _ => []

/-- The distances of a text to all starts of another, given those of what stands before it. -/
def distances (b : List Char) : List Char → List Nat → List Nat
  | [], row => row
  | c :: a, row =>
    let first := row.headD 0 + 1
    distances b a (first :: nextDistances c first b row)

/-- The number of characters to insert, delete or substitute to make one text of another. -/
def editDistance (a b : List Char) : Nat :=
  (distances b a (List.range (b.length + 1))).getLastD 0

/-- How alike two texts are: one for equal texts, less by each edit, in parts of the longer. -/
def similarity (a b : String) : Number :=
  let a := a.toList
  let b := b.toList
  let longest := max a.length b.length
  if longest = 0 then .one
  else Number.one.sub ((Number.ofNat (editDistance a b)).div (.ofNat longest))

/-- The better of a name found before and another: one that reaches the threshold and is more
alike than the name before. -/
def better (threshold : Number) (unknown : String) (best : Option (Number × String))
    (name : String) : Option (Number × String) :=
  let score := similarity unknown name
  if score.lt threshold then best
  else
    match best with
    | none => some (score, name)
    | some (top, found) => if top.lt score then some (score, name) else some (top, found)

/-- The known name that is most like an unknown one, if any is as like as the threshold asks; of
several the first in the order of texts. -/
def Catalog.suggest (catalog : Catalog) (threshold : Number) (unknown : String) :
    Option String :=
  ((catalog.names.mergeSort (· ≤ ·)).foldl (better threshold unknown) none).map (·.2)

end TelemetryQuery.Field
