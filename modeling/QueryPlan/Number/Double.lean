import QueryPlan.Number.Power

/-!
# Double-precision numbers

A `Double` is the 64-bit word of a binary floating-point number: a sign bit, an
eleven-bit exponent and a 52-bit fraction.  A finite magnitude is `m * 2 ^ q`
with `m < 2 ^ 53` (`Double.significand`, `Double.scale`), and every operation
below is exact arithmetic on natural numbers followed by one rounding,
`Double.ofRatio`: the nearest double, a tie going to the even significand.

* `Double.same` — the equality of the numbers, not of the words: a NaN differs
  from itself and the two zeros are equal.
* `Double.ofRatio` — the double nearest to a quotient; `ofNat`, `ofInt`, `mul`
  and `div` are that rounding applied to an exact result.
-/

namespace QueryPlan

/-- A double-precision number, given by its 64-bit word. -/
structure Double where
  /-- Sign, exponent and fraction, from the top bit down. -/
  bits : UInt64

namespace Double

/-! ## The parts of the word -/

/-- Is the sign bit set? -/
def negative (x : Double) : Bool := decide (Power.two 63 ≤ x.bits.toNat)

/-- The eleven exponent bits. -/
def exponentField (x : Double) : Nat := x.bits.toNat / Power.two 52 % Power.two 11

/-- The 52 fraction bits. -/
def fractionField (x : Double) : Nat := x.bits.toNat % Power.two 52

/-- Neither a number nor an infinity. -/
def isNaN (x : Double) : Bool := x.exponentField == 2047 && x.fractionField != 0

/-- One of the two infinities. -/
def isInfinite (x : Double) : Bool := x.exponentField == 2047 && x.fractionField == 0

/-- The whole number `m` of a finite magnitude `m * 2 ^ q`. -/
def significand (x : Double) : Nat :=
  if x.exponentField = 0 then x.fractionField else Power.two 52 + x.fractionField

/-- The power `q` of a finite magnitude `m * 2 ^ q`. -/
def scale (x : Double) : Int :=
  if x.exponentField = 0 then -1074 else (x.exponentField : Int) - 1075

/-- One of the two zeros. -/
def isZero (x : Double) : Bool := x.exponentField == 0 && x.fractionField == 0

/-- Equality of the numbers: a NaN equals nothing and the two zeros are equal. -/
def same (x y : Double) : Bool :=
  !x.isNaN && !y.isNaN && (x.bits == y.bits || (x.isZero && y.isZero))

instance : BEq Double := ⟨same⟩

/-! ## Rounding -/

/-- The number with the given sign and magnitude word. -/
def ofMagnitude (neg : Bool) (word : Nat) : Double :=
  ⟨UInt64.ofNat (if neg then Power.two 63 + word else word)⟩

/-- Zero, with a sign. -/
def zero (neg : Bool) : Double := ofMagnitude neg 0

/-- The word of an infinite magnitude. -/
def infiniteWord : Nat := 2047 * Power.two 52

/-- A quotient rounded to a whole number, a tie going to the even one. -/
def roundEven (num den : Nat) : Nat :=
  let n := num / den
  let r := num % den
  if den < 2 * r ∨ (2 * r = den ∧ n % 2 = 1) then n + 1 else n

/-- The power of two just above or at a positive quotient's size: `e` with
`2 ^ e ≤ num / den < 2 ^ (e + 1)`. -/
def binaryExponent (num den : Nat) : Int :=
  let guess : Int := (num.log2 : Int) - (den.log2 : Int)
  let tooLarge := num * Power.two (-guess).toNat < den * Power.two guess.toNat
  if tooLarge then guess - 1 else guess

/-- The word of the double nearest to the positive quotient `num / den`.  The
significand is rounded on the grid `2 ^ q` that the magnitude lies on, never
finer than `2 ^ (-1074)`; a significand that rounds up to the next power of two
carries into the exponent by itself. -/
def nearestWord (num den : Nat) : Nat :=
  let q := max (binaryExponent num den - 52) (-1074)
  let m := roundEven (num * Power.two (-q).toNat) (den * Power.two q.toNat)
  let word := (q + 1074).toNat * Power.two 52 + m
  min word infiniteWord

/-- The double nearest to `num / den`, with a sign; too large a quotient gives an infinity. -/
def ofRatio (neg : Bool) (num den : Nat) : Double :=
  if num = 0 then zero neg else ofMagnitude neg (nearestWord num den)

/-- The double nearest to a natural number. -/
def ofNat (n : Nat) : Double := ofRatio false n 1

/-- The double nearest to an integer. -/
def ofInt (i : Int) : Double := ofRatio (decide (i < 0)) i.natAbs 1

/-! ## Arithmetic on finite magnitudes -/

/-- Numerator of a finite magnitude as a quotient. -/
def numerator (x : Double) : Nat := x.significand * Power.two x.scale.toNat

/-- Denominator of a finite magnitude as a quotient. -/
def denominator (x : Double) : Nat := Power.two (-x.scale).toNat

/-- The product of two finite magnitudes, rounded once. -/
def mul (x y : Double) : Double :=
  ofRatio false (x.numerator * y.numerator) (x.denominator * y.denominator)

/-- The quotient of two finite magnitudes, the second not zero, rounded once. -/
def div (x y : Double) : Double :=
  ofRatio false (x.numerator * y.denominator) (x.denominator * y.numerator)

/-- The same magnitude with the given sign. -/
def withSign (neg : Bool) (x : Double) : Double :=
  ofMagnitude neg (x.bits.toNat % Power.two 63)

end Double

end QueryPlan
