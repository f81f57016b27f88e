import QueryPlan.Data.Ref
import QueryPlan.Data.Value
import QueryPlan.Json.Codec

/-!
# What a plan node enumerates

A node enumerates either opaque references or decoded values, and a plan mixes
both: a node that only intersects identities never pays for decoding.
-/

namespace QueryPlan

/-- The kind of thing a node enumerates. -/
inductive Domain where
  /-- References. -/
  | ref
  /-- Decoded values. -/
  | value
  deriving DecidableEq, Repr

namespace Domain

/-- What the label of a node of this domain has behind the node's name. -/
def labelSuffix : Domain → String
  | .ref => ""
  | .value => "V"

/-- The name that logs show. -/
def logName : Domain → String
  | .ref => "Ref"
  | .value => "Value"

/-- The name in a JSON text. -/
def jsonName : Domain → String
  | .ref => "ref"
  | .value => "value"

instance : JsonCodec Domain where
  toJson d := .ofString d.jsonName
  ofJson? j := do
    let name ← j.unitVariant?
    [ref, value].find? fun d => d.jsonName.toList == name

end Domain

/-- A type of things that nodes enumerate, compared by `==`. -/
class Item (α : Type) extends BEq α where
  /-- Which domain it belongs to. -/
  domain : Domain

instance : Item Ref := { domain := .ref }

instance : Item Value := { domain := .value }

end QueryPlan
