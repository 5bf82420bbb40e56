import TelemetryQuery.Field.Key
/- The fields that are known, by name. -/
namespace TelemetryQuery.Field

/-- Known fields under the names they are looked up by. -/
abbrev Catalog :=
  List (String × List Key)

namespace Catalog

def find (catalog : Catalog) (name : String) : List Key :=
  (catalog.lookup name).getD []

def names (catalog : Catalog) : List String :=
  catalog.map (·.1)

/-- Adds a field under its own name, after those that have the name already. -/
def add (catalog : Catalog) (key : Key) : Catalog :=
  if catalog.names.contains key.name then
    catalog.map fun (name, keys) => (name, if name = key.name then keys ++ [key] else keys)
  else catalog ++ [(key.name, [key])]

/-- Fields grouped by name, in the order given. -/
def ofKeys (keys : List Key) : Catalog :=
  keys.foldl add []

def keys (catalog : Catalog) : List Key :=
  catalog.flatMap (·.2)

end Catalog

end TelemetryQuery.Field
