import QueryPlan.Text.Decimal
import QueryPlan.Number.Double

/-!
# The shortest decimal that reads back

A positive finite double is written with the fewest digits whose decimal still
rounds to it.  The reals that round to `m * 2 ^ q` form an interval whose ends
lie halfway to the neighbouring doubles; the ends belong to it exactly when `m`
is even.  For one digit, two digits and so on up to seventeen the two neighbours
of the number on that decimal grid are tested; the first grid with a hit wins,
of two hits the nearer, and a `Tie` decides between two equally near ones.

All of it is arithmetic on natural numbers.  Lengths are counted in quarters of
`2 ^ q`, so the number itself is `4 * m` and both ends are whole numbers.
-/

namespace QueryPlan

/-- Which of two equally near decimals is taken. -/
inductive Tie where
  /-- The larger one. -/
  | up
  /-- The one whose last digit is even. -/
  | toEven
  deriving DecidableEq, Repr

/-- A positive decimal `d₁.d₂d₃… * 10 ^ exponent`: its digits, the first of them not zero,
and the power of ten that the first digit counts. -/
structure Scientific where
  /-- The digits, without trailing zeros. -/
  digits : List Digit
  /-- The power of ten of the first digit. -/
  exponent : Int
  deriving DecidableEq, Repr

namespace Shortest

/-! ## The interval of reals that round to a double -/

/-- Lower end of the interval, in quarters of `2 ^ q`.  Just above a power of two the
neighbour below is half as far away. -/
def lowerEnd (x : Double) : Nat :=
  if x.fractionField = 0 ∧ 1 < x.exponentField then 4 * x.significand - 1
  else 4 * x.significand - 2

/-- Upper end of the interval, in quarters of `2 ^ q`. -/
def upperEnd (x : Double) : Nat := 4 * x.significand + 2

/-- Numerator of a quarter of `2 ^ q`. -/
def quarterNum (x : Double) : Nat := Power.two (x.scale - 2).toNat

/-- Denominator of a quarter of `2 ^ q`. -/
def quarterDen (x : Double) : Nat := Power.two (2 - x.scale).toNat

/-- Does the decimal `n * 10 ^ p` round to `x`? -/
def readsBack (x : Double) (n : Nat) (p : Int) : Bool :=
  let decimal := n * Power.ten p.toNat * quarterDen x
  let unit := Power.ten (-p).toNat * quarterNum x
  let low := lowerEnd x * unit
  let high := upperEnd x * unit
  if x.significand % 2 = 0 then decide (low ≤ decimal ∧ decimal ≤ high)
  else decide (low < decimal ∧ decimal < high)

/-! ## The neighbours on a decimal grid -/

/-- The largest `n` with `n * 10 ^ p` at most `x`. -/
def below (x : Double) (p : Int) : Nat :=
  4 * x.significand * quarterNum x * Power.ten (-p).toNat / (quarterDen x * Power.ten p.toNat)

/-- How the two neighbours `n * 10 ^ p` and `(n + 1) * 10 ^ p` compare in their distance
from `x`: the upper one is the nearer when the answer is `lt`. -/
def compareDistance (x : Double) (n : Nat) (p : Int) : Ordering :=
  compare ((2 * n + 1) * Power.ten p.toNat * quarterDen x)
    (8 * x.significand * quarterNum x * Power.ten (-p).toNat)

/-- The neighbour of `x` on the grid `10 ^ p` that reads back, if one does. -/
def onGrid (tie : Tie) (x : Double) (p : Int) : Option Nat :=
  let n := below x p
  match readsBack x n p, readsBack x (n + 1) p with
  | false, false => none
  | true, false => some n
  | false, true => some (n + 1)
  | true, true =>
    match compareDistance x n p, tie with
    | .lt, _ => some (n + 1)
    | .gt, _ => some n
    | .eq, .up => some (n + 1)
    | .eq, .toEven => some (if n % 2 = 0 then n else n + 1)

/-! ## The decimal -/

/-- The power of ten of the number's first digit, searched downwards from `p`. -/
def firstPower (x : Double) : Nat → Int → Int
  | 0, p => p
  | fuel + 1, p => if below x p = 0 then firstPower x fuel (p - 1) else p

/-- Tries grids of `k` digits and more, `fuel` of them; the last one is taken as it is. -/
def search (tie : Tie) (x : Double) (first : Int) : Nat → Nat → Nat × Int
  | 0, k => (below x (first - k), first - k)
  | fuel + 1, k =>
    match onGrid tie x (first - k) with
    | some n => (n, first - k)
    | none => search tie x first fuel (k + 1)

/-- Drops the zeros at the end of a digit list. -/
def trimZeros (ds : List Digit) : List Digit := (ds.reverse.dropWhile (·.val == 0)).reverse

/-- The shortest decimal of a positive finite double. -/
def ofDouble (tie : Tie) (x : Double) : Scientific :=
  let first := firstPower x 640 309
  let (n, p) := search tie x first 17 0
  let ds := Decimal.digits n
  ⟨trimZeros ds, p + ds.length - 1⟩

end Shortest

end QueryPlan
