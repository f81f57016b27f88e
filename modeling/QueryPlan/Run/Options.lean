import QueryPlan.Json.Codec

/-!
# Options of a run

A run can be told to stop after a number of results, and to count every way of
reaching a result as a result.  In a JSON text both options may be missing; a limit
that is missing or `null` is no limit.
-/

namespace QueryPlan

/-- Options of a run. -/
structure RunOptions where
  /-- Stop after this many results. -/
  limit : Option Nat
  /-- Visit every way of reaching a result. -/
  paths : Bool
  deriving DecidableEq, Repr

namespace RunOptions

/-- No limit, and each result once. -/
def new : RunOptions := ⟨none, false⟩

/-- The options with a limit. -/
def withLimit (c : RunOptions) (limit : Nat) : RunOptions := { c with limit := some limit }

/-- The options with every way of reaching a result visited, or not. -/
def withPaths (c : RunOptions) (paths : Bool) : RunOptions := { c with paths }

/-- Is the limit reached with so many results? -/
def reached (c : RunOptions) (count : Nat) : Bool :=
  match c.limit with
  | none => false
  | some limit => decide (limit ≤ count)

/-- The limit that a JSON form stands for. -/
def limitOfJson? : Json → Option (Option Nat)
  | .null => some none
  | j => j.asNat64?.map some

instance : JsonCodec RunOptions where
  toJson c := .ofFields [
    ("limit", match c.limit with | none => .null | some limit => .ofInt limit),
    ("paths", .bool c.paths)]
  ofJson? j := do
    let [limit, paths] ← j.fields? ["limit", "paths"] | none
    return {
      limit := ← match limit with | none => some none | some x => limitOfJson? x
      paths := ← match paths with | none => some false | some x => x.asBool? }

end RunOptions

end QueryPlan
