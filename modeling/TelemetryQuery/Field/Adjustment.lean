import TelemetryQuery.Field.Key
/- What is done to the keys of a query when they are resolved and merged. -/
namespace TelemetryQuery.Field

/-- What a query uses a key for. -/
inductive Role where
  | selected
  | grouped
  | ordered
deriving DecidableEq, Repr, Inhabited

def Role.text : Role → String
  | selected => "SelectField"
  | grouped => "GroupBy"
  | ordered => "OrderBy"

/-- A change of a key, with the key before it. -/
inductive Adjustment where
  /-- The context was given up, because a key of the same name has another. -/
  | contextDropped (key duplicate : Key)
  | typeDropped (key duplicate : Key)
  /-- The key was left out, because its name was used before in the same role. -/
  | skipped (role : Role) (key : Key)
  /-- The key became one that all records have. -/
  | overridden (key result : Key)
  /-- The key became the only known one that it can mean. -/
  | adopted (key result : Key)
  | contextGained (key : Key) (context : Context)
  | typeGained (key : Key) (type : DataType)
deriving DecidableEq, Repr, Inhabited

def Adjustment.message : Adjustment → String
  | contextDropped key duplicate =>
    "Removed field context from " ++ key.display ++ " for duplicate key " ++ duplicate.display
  | typeDropped key duplicate =>
    "Removed field data type from " ++ key.display ++ " for duplicate key " ++ duplicate.display
  | skipped role key => "Skipped duplicate " ++ role.text ++ " key " ++ key.display
  | overridden key result => "Overriding key: " ++ key.display ++ " to " ++ result.display
  | adopted key result => "Adjusting key " ++ key.display ++ " to " ++ result.display
  | contextGained key context =>
    "Adjusting key " ++ key.display ++ " to have field context " ++ context.text
  | typeGained key type => "Adjusting key " ++ key.display ++ " to have data type " ++ type.text

end TelemetryQuery.Field
