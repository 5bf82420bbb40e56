import TelemetryQuery.Field.Resolution
/- The keys that a query selects, groups by and orders by. -/
namespace TelemetryQuery.Field

inductive Direction where
  | ascending
  | descending
deriving DecidableEq, Repr, Inhabited

structure OrderKey where
  key : Key
  direction : Direction := .ascending
deriving DecidableEq, Repr, Inhabited

/-- The keys of a query. -/
structure Usage where
  selected : List Key := []
  grouped : List Key := []
  ordered : List OrderKey := []
deriving DecidableEq, Repr, Inhabited

namespace Usage

/-- All keys, in the order of the roles. -/
def keys (usage : Usage) : List Key :=
  usage.selected ++ usage.grouped ++ usage.ordered.map OrderKey.key

/-- Gives up what a key of the same name contradicts. -/
def widen (key duplicate : Key) : Adjusted Key :=
  let dropsContext := key.context.isSpecified && key.context != duplicate.context
  let withoutContext := if dropsContext then { key with context := .unspecified } else key
  let dropsType := key.type.isSpecified && key.type != duplicate.type
  { result := if dropsType then { withoutContext with type := .unspecified } else withoutContext
    adjustments :=
      (if dropsContext then [.contextDropped key duplicate] else []) ++
        if dropsType then [.typeDropped withoutContext duplicate] else [] }

/-- Takes one more key into a list with one key for each name. -/
def absorb (merged : List Key) (key : Key) : Adjusted (List Key) :=
  match merged with
  | [] => ⟨[key], []⟩
  | first :: rest =>
    if first.name = key.name then
      let widened := widen first key
      ⟨widened.result :: rest, widened.adjustments⟩
    else
      let absorbed := absorb rest key
      ⟨first :: absorbed.result, absorbed.adjustments⟩

/-- One key for each name, as wide as all keys of the name need it. -/
def merge (merged : List Key) : List Key → Adjusted (List Key)
  | [] => ⟨merged, []⟩
  | key :: rest =>
    let absorbed := absorb merged key
    let later := merge absorbed.result rest
    ⟨later.result, absorbed.adjustments ++ later.adjustments⟩

/-- The merged key of a key's name. -/
def mergedKey (merged : List Key) (key : Key) : Key :=
  (merged.find? (·.name == key.name)).getD key

/-- Keeps the first of each name in a role, with the merged key. -/
def keepFirst {α : Type} (role : Role) (merged : List Key) (keyOf : α → Key)
    (replace : α → Key → α) (seen : List String) : List α → Adjusted (List α)
  | [] => ⟨[], []⟩
  | item :: rest =>
    let key := keyOf item
    if seen.contains key.name then
      let later := keepFirst role merged keyOf replace seen rest
      ⟨later.result, .skipped role key :: later.adjustments⟩
    else
      let later := keepFirst role merged keyOf replace (key.name :: seen) rest
      ⟨replace item (mergedKey merged key) :: later.result, later.adjustments⟩

/-- Merges keys of one name: each role uses a name once, and all roles use the same key for it. -/
def mergeDuplicates (usage : Usage) : Adjusted Usage :=
  let merged := merge [] usage.keys
  let keep (role : Role) := keepFirst role merged.result id (fun _ key => key) []
  let selected := keep .selected usage.selected
  let grouped := keep .grouped usage.grouped
  let ordered := keepFirst .ordered merged.result OrderKey.key
    (fun item key => { item with key }) [] usage.ordered
  ⟨⟨selected.result, grouped.result, ordered.result⟩,
    merged.adjustments ++ selected.adjustments ++ grouped.adjustments ++ ordered.adjustments⟩

/-- Resolves every key, and merges those that have the same name then. -/
def resolve (catalog : Catalog) (intrinsic : String → Option Key) (usage : Usage) :
    Adjusted Usage :=
  let resolveKey (key : Key) := key.resolve catalog (intrinsic key.name)
  let resolved : Usage :=
    { selected := usage.selected.map (resolveKey · |>.result)
      grouped := usage.grouped.map (resolveKey · |>.result)
      ordered := usage.ordered.map fun item =>
        { item with key := (resolveKey item.key).result } }
  let merged := resolved.mergeDuplicates
  ⟨merged.result, usage.keys.flatMap (resolveKey · |>.adjustments) ++ merged.adjustments⟩

end Usage

end TelemetryQuery.Field
