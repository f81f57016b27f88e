/-!
# Hexadecimal digits

A number below sixteen is written as one of `0` to `9` and `a` to `f`.  A reader
takes capital letters as well.

* `Hex.value?_digit` — a digit that is written reads back.
-/

namespace QueryPlan.Hex

/-- The digit of a number below sixteen, in lower case. -/
def digit (n : Nat) : Char := if n < 10 then Char.ofNat (48 + n) else Char.ofNat (87 + n)

/-- The number that a digit of either case stands for. -/
def value? (c : Char) : Option Nat :=
  if 48 ≤ c.toNat ∧ c.toNat < 58 then some (c.toNat - 48)
  else if 97 ≤ c.toNat ∧ c.toNat < 103 then some (c.toNat - 87)
  else if 65 ≤ c.toNat ∧ c.toNat < 71 then some (c.toNat - 55)
  else none

theorem value?_digit : ∀ n < 16, value? (digit n) = some n := by decide

end QueryPlan.Hex
