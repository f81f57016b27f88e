import QueryPlan.Data.DataError
import QueryPlan.Number.Layout
import QueryPlan.Text.Quoted

/-!
# Decoded values

A value is what a storage backend makes of a reference: a node's name, a literal,
a number or a truth value.  Each kind has a written form of its own.

| kind | written |
|---|---|
| string | `"text"` |
| iri | `<ex:alice>` |
| blank node | `_:label` |
| typed string | `"text"^^<type>` |
| lang string | `"text"@lang` |
| int | `-42` |
| float | `0.5`, never with an exponent |
| bool | `true`, `false` |
-/

namespace QueryPlan

/-- A decoded value. -/
inductive Value where
  /-- A plain string literal. -/
  | string (text : String)
  /-- An IRI that names a node. -/
  | iri (iri : String)
  /-- The label of a blank node. -/
  | blank (label : String)
  /-- A literal with the IRI of its datatype. -/
  | typed (text datatype : String)
  /-- A literal with its language tag. -/
  | lang (text tag : String)
  /-- A 64-bit integer with sign. -/
  | int (i : Int64)
  /-- A double-precision number. -/
  | float (x : Double)
  /-- A truth value. -/
  | bool (b : Bool)

namespace Value

/-- Equality of values: same kind and same content, floats compared as numbers. -/
def same : Value → Value → Bool
  | .string s, .string t => s == t
  | .iri s, .iri t => s == t
  | .blank s, .blank t => s == t
  | .typed s d, .typed t e => s == t && d == e
  | .lang s d, .lang t e => s == t && d == e
  | .int i, .int j => i == j
  | .float x, .float y => x == y
  | .bool b, .bool c => b == c
  | _, _ => false

instance : BEq Value := ⟨same⟩

/-! ## Kinds -/

/-- The name of a value's kind. -/
def kindName : Value → String
  | .string _ => "string"
  | .iri _ => "iri"
  | .blank _ => "blank node"
  | .typed _ _ => "typed string"
  | .lang _ _ => "lang string"
  | .int _ => "int"
  | .float _ => "float"
  | .bool _ => "bool"

/-- Does the value name a graph node? -/
def isNode : Value → Bool
  | .iri _ | .blank _ => true
  | _ => false

/-! ## Contents -/

/-- The text of a literal, without datatype or language. -/
def text? : Value → Option String
  | .string s | .typed s _ | .lang s _ => some s
  | _ => none

/-- The IRI. -/
def iri? : Value → Option String
  | .iri s => some s
  | _ => none

/-- The integer. -/
def int? : Value → Option Int64
  | .int i => some i
  | _ => none

/-- The number as a double; an integer is rounded to the nearest one. -/
def float? : Value → Option Double
  | .float x => some x
  | .int i => some (Double.ofInt i.toInt)
  | _ => none

/-- The truth value. -/
def bool? : Value → Option Bool
  | .bool b => some b
  | _ => none

/-! ## Written form -/

/-- Floats are written positionally, without a zero behind the point; of two equally near
decimals the larger one is written. -/
def floatLayout : Layout := ⟨.up, fun _ => true, false⟩

/-- The text of a float. -/
def floatChars (x : Double) : List Char :=
  if x.isNaN then ['N', 'a', 'N']
  else if x.isInfinite then
    if x.negative then ['-', 'i', 'n', 'f'] else ['i', 'n', 'f']
  else (floatLayout.write x).chars

/-- The text of a truth value. -/
def boolChars (b : Bool) : List Char :=
  if b then ['t', 'r', 'u', 'e'] else ['f', 'a', 'l', 's', 'e']

/-- A text between angle brackets. -/
def angled (s : String) : List Char := '<' :: (s.toList ++ ['>'])

/-- The text of a value. -/
def chars : Value → List Char
  | .string s => Quoted.encode s.toList
  | .iri s => angled s
  | .blank label => '_' :: ':' :: label.toList
  | .typed s datatype => Quoted.encode s.toList ++ '^' :: '^' :: angled datatype
  | .lang s tag => Quoted.encode s.toList ++ '@' :: tag.toList
  | .int i => Decimal.ofInt i.toInt
  | .float x => floatChars x
  | .bool b => boolChars b

instance : ToString Value := ⟨fun v => String.ofList v.chars⟩

/-! ## Conversions that report a mismatch -/

/-- The content of the asked kind, or a mismatch that shows the value. -/
def orMismatch {α : Type} (expected : String) (v : Value) : Option α → Except DataError α
  | some x => .ok x
  | none => .error (.mismatchShowing expected v.kindName v)

/-- The integer, or a mismatch. -/
def toInt (v : Value) : Except DataError Int64 := orMismatch "int" v v.int?

/-- The number as a double, or a mismatch. -/
def toFloat (v : Value) : Except DataError Double := orMismatch "float" v v.float?

/-- The truth value, or a mismatch. -/
def toBool (v : Value) : Except DataError Bool := orMismatch "bool" v v.bool?

end Value

end QueryPlan
