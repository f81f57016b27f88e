/-!
# Powers

The powers of two and ten that the formats of numbers are made of, with natural numbers as
exponents.  They name the function itself and not the sign `^`, whose reading depends on
what is imported.
-/

namespace QueryPlan.Power

/-- `2 ^ n`. -/
def two (n : Nat) : Nat := Nat.pow 2 n

/-- `10 ^ n`. -/
def ten (n : Nat) : Nat := Nat.pow 10 n

end QueryPlan.Power
