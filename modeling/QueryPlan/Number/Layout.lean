import QueryPlan.Number.Shortest
import QueryPlan.Number.Numeral

/-!
# How a double is laid out

The shortest decimal of a double fixes its digits.  A `Layout` is what a text
format still has to decide: which of two equally near decimals is taken, for
which powers of ten the number is written positionally, and whether a whole
number shows a zero behind the point.  Everything else about the text follows.
-/

namespace QueryPlan

/-- A text format's choices for a finite double. -/
structure Layout where
  /-- Which of two equally near decimals is written. -/
  tie : Tie
  /-- Is a number whose first digit counts this power of ten written without exponent? -/
  positional : Int → Bool
  /-- Does a positional whole number end in `.0`? -/
  pointZero : Bool

namespace Layout

/-- The digits behind the point of a whole number. -/
def emptyFraction (l : Layout) : List Digit := if l.pointZero then [Digit.zero] else []

/-- A decimal written without exponent: zeros fill up to the point on either side. -/
def writePositional (l : Layout) (negative : Bool) (s : Scientific) : Numeral :=
  if 0 ≤ s.exponent then
    let wholeLength := s.exponent.toNat + 1
    let whole := s.digits.take wholeLength
    let fraction := s.digits.drop wholeLength
    { negative
      whole := whole ++ List.replicate (wholeLength - whole.length) Digit.zero
      fraction := if fraction = [] then l.emptyFraction else fraction
      exponent := none }
  else
    { negative
      whole := [Digit.zero]
      fraction := List.replicate (s.exponent.natAbs - 1) Digit.zero ++ s.digits
      exponent := none }

/-- A decimal written with one digit in front of the point and an exponent. -/
def writeScientific (negative : Bool) (s : Scientific) : Numeral :=
  { negative
    whole := s.digits.take 1
    fraction := s.digits.drop 1
    exponent := some ⟨decide (s.exponent < 0), Decimal.digits s.exponent.natAbs⟩ }

/-- The text of a finite double, as a numeral. -/
def write (l : Layout) (x : Double) : Numeral :=
  if x.isZero then ⟨x.negative, [Digit.zero], l.emptyFraction, none⟩
  else
    let s := Shortest.ofDouble l.tie x
    if l.positional s.exponent then l.writePositional x.negative s
    else writeScientific x.negative s

end Layout

end QueryPlan
