import QueryPlan.Json.Codec

/-!
# Identities of plan nodes

Every plan node takes a `Uid` when it is built, from a `UidCounter`: a counter
of 64 bits that hands out its current number and moves on.  The counter wraps from
`2 ^ 64 - 1` to zero, so up to `2 ^ 64` identities in a row are different.
-/

namespace QueryPlan

/-- The identity of a plan node. -/
structure Uid where
  /-- Its number. -/
  id : UInt64
  deriving DecidableEq, Repr

namespace Uid

instance : Ord Uid := ⟨fun a b => compare a.id b.id⟩

instance : LT Uid := ⟨fun a b => a.id < b.id⟩

instance : ToString Uid := ⟨fun u => String.ofList ('#' :: Decimal.ofNat u.id.toNat)⟩

instance : JsonCodec Uid where
  toJson u := .ofInt u.id.toNat
  ofJson? j := j.asNat64?.map fun n => ⟨UInt64.ofNat n⟩

end Uid

/-! ## Allocation -/

/-- A source of identities. -/
structure UidCounter where
  /-- The number of the identity that is handed out next. -/
  current : UInt64
  deriving DecidableEq, Repr

namespace UidCounter

/-- A counter whose first identity has the given number. -/
def startingAt (id : UInt64) : UidCounter := ⟨id⟩

/-- A counter that starts at zero. -/
def new : UidCounter := startingAt 0

/-- Hands out an identity. -/
def next (a : UidCounter) : Uid × UidCounter := (⟨a.current⟩, ⟨a.current + 1⟩)

end UidCounter

end QueryPlan
