import QueryPlan.Data.Value
import QueryPlan.Json.Codec

/-!
# The JSON form of a value

A value is an alternative named for its kind.  The two literals with an extra part
are records; every other kind has its content for data.  A float that is no finite
number is written as `null`, which does not read back.
-/

namespace QueryPlan.Value

/-- Floats are written positionally where the first digit counts a power of ten from -5 to
15, always with a point; of two equally near decimals the one with an even last digit is
written. -/
def jsonLayout : Layout := ⟨.toEven, fun p => decide (-5 ≤ p ∧ p ≤ 15), true⟩

/-- The JSON form of a float. -/
def floatToJson (x : Double) : Json :=
  if x.isNaN ∨ x.isInfinite then .null else .num (jsonLayout.write x)

/-- The JSON form of a value. -/
def toJson : Value → Json
  | .string s => .ofVariant "String" (.ofString s)
  | .iri s => .ofVariant "Iri" (.ofString s)
  | .blank label => .ofVariant "BlankNode" (.ofString label)
  | .typed s datatype =>
    .ofVariant "TypedString"
      (.ofFields [("value", .ofString s), ("datatype", .ofString datatype)])
  | .lang s tag =>
    .ofVariant "LangString" (.ofFields [("value", .ofString s), ("lang", .ofString tag)])
  | .int i => .ofVariant "Int" (.ofInt i.toInt)
  | .float x => .ofVariant "Float" (floatToJson x)
  | .bool b => .ofVariant "Bool" (.bool b)

/-- The two strings of a record with these fields. -/
def readPair? (first second : String) (j : Json) : Option (String × String) := do
  let [x, y] ← j.allFields? [first, second] | none
  return (← x.asString?, ← y.asString?)

/-- The value of a kind with a name and data. -/
def ofVariant? (name : List Char) (data : Json) : Option Value :=
  if name = "String".toList then data.asString?.map .string
  else if name = "Iri".toList then data.asString?.map .iri
  else if name = "BlankNode".toList then data.asString?.map .blank
  else if name = "TypedString".toList then
    (readPair? "value" "datatype" data).map fun (s, datatype) => .typed s datatype
  else if name = "LangString".toList then
    (readPair? "value" "lang" data).map fun (s, tag) => .lang s tag
  else if name = "Int".toList then data.asInt64?.map fun i => .int (Int64.ofInt i)
  else if name = "Float".toList then data.asDouble?.map .float
  else if name = "Bool".toList then data.asBool?.map .bool
  else none

/-- The value that a JSON form stands for. -/
def ofJson? (j : Json) : Option Value := j.variant?.bind fun (name, data) => ofVariant? name data

instance : JsonCodec Value := ⟨toJson, ofJson?⟩

end QueryPlan.Value
