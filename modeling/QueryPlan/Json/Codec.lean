import QueryPlan.Json.Printer
import QueryPlan.Json.Reader

/-!
# Types with a JSON form

A type with a JSON form has a writer and a reader (`JsonCodec`).  The readers of
records and of named alternatives share the rules that are gathered here.

* A record is an object whose keys are the field names.  Other keys are ignored, a
  field given twice is refused.  An array of the fields in order is read too.
* An alternative without data is the string of its name, or an object with that
  name for its only key and `null` for its value.
* An alternative with data is an object with its name for the only key.
* An integer is a number without fraction and exponent that fits the type.
-/

namespace QueryPlan

/-- A type with a JSON form. -/
class JsonCodec (α : Type) where
  /-- The JSON form of a value. -/
  toJson : α → Json
  /-- The value that a JSON form stands for. -/
  ofJson? : Json → Option α

namespace JsonCodec

variable {α : Type} [JsonCodec α]

/-- The compact JSON text of a value. -/
def write (x : α) : String := (toJson x).write .compact

/-- Reads a value from a JSON text. -/
def read? (text : String) : Option α := (Json.parse? text.toList).bind ofJson?

end JsonCodec

namespace Json

/-! ## Writing -/

/-- A string. -/
def ofString (s : String) : Json := .str s.toList

/-- An integer. -/
def ofInt (i : Int) : Json := .num (Numeral.ofInt i)

/-- A record with named fields. -/
def ofFields (fields : List (String × Json)) : Json :=
  .obj (fields.map fun (name, x) => (name.toList, x))

/-- An alternative with data. -/
def ofVariant (name : String) (x : Json) : Json := .obj [(name.toList, x)]

/-! ## Reading -/

/-- A string. -/
def asString? : Json → Option String
  | .str s => some (String.ofList s)
  | _ => none

/-- One of the words `true` and `false`. -/
def asBool? : Json → Option Bool
  | .bool b => some b
  | _ => none

/-- An integer from `low` to `high`. -/
def asIntWithin? (low high : Int) : Json → Option Int
  | .num n => n.toInt?.bind fun i => if low ≤ i ∧ i ≤ high then some i else none
  | _ => none

/-- An integer of 64 bits with sign. -/
def asInt64? (j : Json) : Option Int :=
  j.asIntWithin? (-(Power.two 63 : Int)) ((Power.two 63 : Int) - 1)

/-- A natural number of 64 bits. -/
def asNat64? (j : Json) : Option Nat :=
  (j.asIntWithin? 0 ((Power.two 64 : Int) - 1)).map Int.toNat

/-- A double: any number that is not too large, integers included. -/
def asDouble? : Json → Option Double
  | .num n => n.toDouble?
  | _ => none

/-- What a record's text gives for the field `name`: nothing, one value, or, as a failure,
several. -/
def field? (members : List (List Char × Json)) (name : String) : Option (Option Json) :=
  match members.filter fun m => m.1 == name.toList with
  | [] => some none
  | [m] => some (some m.2)
  | _ => none

/-- What a record gives for each of its fields, in their order: by name from an object, by
place from an array, which may end early but not be too long. -/
def fields? (names : List String) : Json → Option (List (Option Json))
  | .obj members => names.mapM (field? members)
  | .arr items =>
    if items.length ≤ names.length then
      some (items.map some ++ List.replicate (names.length - items.length) none)
    else none
  | _ => none

/-- The values of a record's fields, none of which may be missing. -/
def allFields? (names : List String) (j : Json) : Option (List Json) :=
  (j.fields? names).bind fun xs => xs.mapM id

/-- The name and the data of an alternative. -/
def variant? : Json → Option (List Char × Json)
  | .obj [m] => some m
  | _ => none

/-- The name of an alternative without data. -/
def unitVariant? : Json → Option (List Char)
  | .str s => some s
  | .obj [(name, .null)] => some name
  | _ => none

end Json

end QueryPlan
