import TelemetryQuery.Text.Basic
/- The aggregate functions that expressions may call. -/
namespace TelemetryQuery.Aggregate

/-- An aggregate function: its names, what it is called in SQL, and the calls it takes. -/
structure Function where
  name : String
  sqlName : String
  aliases : List String := []
  minArguments : Nat
  maxArguments : Nat
  /-- Arguments have to be numbers; text is cast. -/
  numeric : Bool := false
  /-- The last argument is a filter. -/
  conditional : Bool := false
  /-- The result is divided by the rate interval. -/
  rate : Bool := false
deriving DecidableEq, Repr, Inhabited

namespace Function

def requiresArguments (function : Function) : Bool :=
  0 < function.minArguments

/-- Functions that are not percentiles. -/
def basic : List Function :=
  [ { name := "count", sqlName := "count", minArguments := 0, maxArguments := 1 },
    { name := "countDistinct", sqlName := "countDistinct", aliases := ["count_distinct"],
      minArguments := 1, maxArguments := 1 },
    { name := "sum", sqlName := "sum", minArguments := 1, maxArguments := 1, numeric := true },
    { name := "avg", sqlName := "avg", minArguments := 1, maxArguments := 1, numeric := true },
    { name := "min", sqlName := "min", minArguments := 1, maxArguments := 1, numeric := true },
    { name := "max", sqlName := "max", minArguments := 1, maxArguments := 1, numeric := true },
    { name := "rate", sqlName := "count", minArguments := 0, maxArguments := 0, rate := true },
    { name := "rate_sum", sqlName := "sum", minArguments := 1, maxArguments := 1,
      numeric := true, rate := true },
    { name := "rate_avg", sqlName := "avg", minArguments := 1, maxArguments := 1,
      numeric := true, rate := true },
    { name := "rate_min", sqlName := "min", minArguments := 1, maxArguments := 1,
      numeric := true, rate := true },
    { name := "rate_max", sqlName := "max", minArguments := 1, maxArguments := 1,
      numeric := true, rate := true },
    { name := "countIf", sqlName := "countIf", minArguments := 1, maxArguments := 1,
      conditional := true },
    { name := "countDistinctIf", sqlName := "countDistinctIf", minArguments := 2,
      maxArguments := 2, conditional := true },
    { name := "sumIf", sqlName := "sumIf", minArguments := 2, maxArguments := 2,
      numeric := true, conditional := true },
    { name := "avgIf", sqlName := "avgIf", minArguments := 2, maxArguments := 2,
      numeric := true, conditional := true },
    { name := "minIf", sqlName := "minIf", minArguments := 2, maxArguments := 2,
      numeric := true, conditional := true },
    { name := "maxIf", sqlName := "maxIf", minArguments := 2, maxArguments := 2,
      numeric := true, conditional := true },
    { name := "rateIf", sqlName := "countIf", minArguments := 1, maxArguments := 1,
      conditional := true, rate := true } ]

/-- The percentiles that have functions of their own, with two digits each. -/
def levels : List String :=
  ["05", "10", "20", "25", "50", "75", "90", "95", "99"]

/-- The functions of a percentile: over all rows, and over those that a filter keeps. -/
def percentile (level : String) : List Function :=
  [ { name := "p" ++ level, sqlName := "quantile(0." ++ level ++ ")",
      aliases := ["percentile" ++ level], minArguments := 1, maxArguments := 1,
      numeric := true },
    { name := "p" ++ level ++ "If", sqlName := "quantileIf(0." ++ level ++ ")",
      minArguments := 2, maxArguments := 2, numeric := true, conditional := true } ]

def all : List Function :=
  basic ++ levels.flatMap percentile

/-- The function of a name or of another name for it, in any case. -/
def ofName? (name : String) : Option Function :=
  all.find? fun function =>
    (function.name :: function.aliases).any (Text.sameIgnoringCase name)

/-- What is wrong with the number of arguments of a call. -/
inductive ArityError where
  | takesNone (name : String)
  | outside (name : String) (least most : Nat)
deriving DecidableEq, Repr, Inhabited

def ArityError.message : ArityError → String
  | takesNone name => "function `" ++ name ++ "` expects no arguments"
  | outside name least most =>
    "function `" ++ name ++ "` expects between " ++ toString least ++ " and " ++
      toString most ++ " arguments"

def checkArity (function : Function) (count : Nat) : Except ArityError Unit :=
  if !function.requiresArguments && function.maxArguments == 0 && 0 < count then
    .error (.takesNone function.name)
  else if count < function.minArguments || function.maxArguments < count then
    .error (.outside function.name function.minArguments function.maxArguments)
  else .ok ()

end Function

end TelemetryQuery.Aggregate
