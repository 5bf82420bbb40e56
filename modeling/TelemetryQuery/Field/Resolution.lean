import TelemetryQuery.Field.Adjustment
import TelemetryQuery.Field.Catalog
/- Keys resolved against the known fields. -/
namespace TelemetryQuery.Field

/-- A key after a change, and what was done to it. -/
structure Adjusted (α : Type) where
  result : α
  adjustments : List Adjustment
deriving Repr, Inhabited

namespace Key

/-- Whether a field has the type that a key asks for, if it asks for one. -/
def acceptsType (key field : Key) : Bool :=
  !key.type.isSpecified || key.type == field.type

/-- Whether a field has the context and the type that a key asks for. -/
def accepts (key field : Key) : Bool :=
  (!key.context.isSpecified || key.context == field.context) && key.acceptsType field

/-- The name of a key with its context before it. -/
def qualifiedName (key : Key) : String :=
  key.context.text ++ "." ++ key.name

/-- The known fields that a key may mean: those of its name that it accepts, and those whose name
starts with the key's context. -/
def matching (catalog : Catalog) (key : Key) : List Key :=
  (catalog.find key.name).filter key.accepts ++
    if key.context.isSpecified then (catalog.find key.qualifiedName).filter key.acceptsType else []

/-- Whether a field that all records have is what a key means: the key accepts it, and no known
field of the name differs from it. -/
def meansIntrinsic (catalog : Catalog) (key field : Key) : Bool :=
  (catalog.find key.name).all (fun known =>
    known.context == field.context && known.type == field.type) && key.accepts field

/-- Takes from several fields what they agree on and the key leaves open. A key is materialized
only if all of them are. -/
def fill (key first : Key) (rest : List Key) : Adjusted Key :=
  let sameContext := rest.all (·.context == first.context)
  let sameType := rest.all (·.type == first.type)
  let sameBodyType := rest.all (·.bodyType == first.bodyType)
  let gainsContext := !key.context.isSpecified && sameContext
  let withContext := if gainsContext then { key with context := first.context } else key
  let gainsType := !key.type.isSpecified && sameType
  let withType := if gainsType then { withContext with type := first.type } else withContext
  { result :=
      { withType with
        bodyType := if key.bodyType.isNone && sameBodyType then first.bodyType else key.bodyType
        materialized := (first :: rest).all (·.materialized) }
    adjustments :=
      (if gainsContext then [.contextGained key first.context] else []) ++
        if gainsType then [.typeGained withContext first.type] else [] }

/-- Resolves a key among the fields that it may mean. -/
def settle (key : Key) : List Key → Adjusted Key
  | [] => ⟨{ key with materialized := false }, []⟩
  | [only] =>
    ⟨only, if only.sameField key && only.materialized == key.materialized then []
      else [.adopted key only]⟩
  | first :: rest => key.fill first rest

/-- Resolves a key. A field that all records have goes before the known ones. -/
def resolve (catalog : Catalog) (intrinsic : Option Key) (key : Key) : Adjusted Key :=
  match intrinsic with
  | some field =>
    if key.meansIntrinsic catalog field then
      ⟨field, if key = field then [] else [.overridden key field]⟩
    else key.settle (key.matching catalog)
  | none => key.settle (key.matching catalog)

end Key

end TelemetryQuery.Field
