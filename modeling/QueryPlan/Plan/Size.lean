import QueryPlan.Json.Codec

/-!
# Sizes and costs

What a planner learns about a node without running it: how many results it has
(`Size`), exactly or as an estimate, and what a step costs (`Stats`).  Costs are
relative units.  In a JSON text every number is an integer of 64 bits with sign.

* `Stats.fullScanCost` — the cost of enumerating everything, kept within 64 bits.
-/

namespace QueryPlan

/-! ## Sizes -/

/-- A number of results. -/
structure Size where
  /-- How many. -/
  value : Int
  /-- Is it known, rather than estimated? -/
  exact : Bool
  deriving DecidableEq, Repr

namespace Size

/-- A known size. -/
def known (value : Int) : Size := ⟨value, true⟩

/-- An estimate. -/
def estimate (value : Int) : Size := ⟨value, false⟩

/-- Is it known that there are no results? -/
def isExactZero (s : Size) : Bool := s.exact && s.value == 0

instance : ToString Size where
  toString s := String.ofList ((if s.exact then [] else ['~']) ++ Decimal.ofInt s.value)

instance : JsonCodec Size where
  toJson s := .ofFields [("value", .ofInt s.value), ("exact", .bool s.exact)]
  ofJson? j := do
    let [value, exact] ← j.allFields? ["value", "exact"] | none
    return ⟨← value.asInt64?, ← exact.asBool?⟩

end Size

/-! ## Costs -/

/-- What a planner learns about a node. -/
structure Stats where
  /-- The cost of one membership test. -/
  containsCost : Int
  /-- The cost of one step. -/
  nextCost : Int
  /-- The number of results. -/
  size : Size
  /-- How many steps were asked for so far. -/
  nextCalls : Int
  /-- How many membership tests were asked for so far. -/
  containsCalls : Int
  /-- How many of them said yes. -/
  containsHits : Int
  deriving DecidableEq, Repr

namespace Stats

/-- Nothing known: no cost, no calls, an estimate of zero results. -/
def unknown : Stats := ⟨0, 0, .estimate 0, 0, 0, 0⟩

/-- A node that is known to be empty and costs nothing. -/
def empty : Stats := ⟨0, 0, .known 0, 0, 0, 0⟩

/-- A number kept within 64 bits with sign. -/
def saturate (i : Int) : Int :=
  max (-(Power.two 63 : Int)) (min ((Power.two 63 : Int) - 1) i)

/-- The estimated cost of enumerating every result. -/
def fullScanCost (s : Stats) : Int := saturate (s.nextCost * s.size.value)

instance : JsonCodec Stats where
  toJson s := .ofFields [
    ("contains_cost", .ofInt s.containsCost), ("next_cost", .ofInt s.nextCost),
    ("size", JsonCodec.toJson s.size), ("next", .ofInt s.nextCalls),
    ("contains", .ofInt s.containsCalls), ("contains_next", .ofInt s.containsHits)]
  ofJson? j := do
    let [containsCost, nextCost, size, nexts, contains, hits] ← j.allFields?
      ["contains_cost", "next_cost", "size", "next", "contains", "contains_next"] | none
    return {
      containsCost := ← containsCost.asInt64?
      nextCost := ← nextCost.asInt64?
      size := ← JsonCodec.ofJson? size
      nextCalls := ← nexts.asInt64?
      containsCalls := ← contains.asInt64?
      containsHits := ← hits.asInt64? }

end Stats

end QueryPlan
