import QueryPlan.Data.DataError
import QueryPlan.Text.Decimal
import QueryPlan.Text.Hex

/-!
# References

A reference is an opaque name for a graph element, issued by a storage backend: a
string of bytes that nobody above the backend interprets.  References are compared
byte by byte, a proper beginning coming first, and shown as lower-case
hexadecimal, two digits a byte.

A backend that numbers its elements with 64-bit ids writes an id as eight bytes,
most significant first, so that the order of references is the order of ids
(`Ref.ofId`, `Ref.toId`).
-/

namespace QueryPlan

/-- An opaque name for a graph element. -/
structure Ref where
  /-- The backend's encoding. -/
  bytes : List UInt8
  deriving DecidableEq, Repr

namespace Ref

/-! ## Order -/

instance : Ord Ref := ⟨fun a b => compare a.bytes b.bytes⟩

/-- References in ascending order. -/
def sort (refs : List Ref) : List Ref := refs.mergeSort fun a b => (compare a b).isLE

/-- How many different references a list holds. -/
def countDistinct (refs : List Ref) : Nat := refs.eraseDups.length

/-- The number of bytes. -/
def size (r : Ref) : Nat := r.bytes.length

/-! ## Hexadecimal text -/

/-- The two digits of a byte. -/
def hexByte (b : UInt8) : List Char := [Hex.digit (b.toNat / 16), Hex.digit (b.toNat % 16)]

/-- The text of a reference. -/
def chars (r : Ref) : List Char := r.bytes.flatMap hexByte

instance : ToString Ref := ⟨fun r => String.ofList r.chars⟩

/-- The text that tells a reference from other data. -/
def inspect (r : Ref) : String := "Ref(" ++ toString r ++ ")"

/-! ## References of numbered elements -/

/-- A number's `n` lowest bytes, most significant first. -/
def bytesOfNat : Nat → Nat → List UInt8
  | 0, _ => []
  | n + 1, x => bytesOfNat n (x / 256) ++ [UInt8.ofNat x]

/-- The number that bytes stand for, most significant first. -/
def natOfBytes (bs : List UInt8) : Nat := bs.foldl (fun n b => 256 * n + b.toNat) 0

/-- The reference of the element with a given id. -/
def ofId (id : UInt64) : Ref := ⟨bytesOfNat 8 id.toNat⟩

/-- The id in a reference; only a reference of eight bytes holds one. -/
def toId (r : Ref) : Except DataError UInt64 :=
  if r.size = 8 then .ok (UInt64.ofNat (natOfBytes r.bytes))
  else .error (.invalidRef ("expected 8 bytes, got " ++ String.ofList (Decimal.ofNat r.size)))

end Ref

end QueryPlan
