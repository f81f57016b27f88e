import QueryPlan.Text.Decimal
import QueryPlan.Number.Double

/-!
# Written numbers

A `Numeral` is a number as it stands in a text: an optional minus sign, digits,
an optional fraction and an optional power of ten.  It keeps every digit, so
reading it as an integer (`toInt?`) and reading it as a double (`toDouble?`) are
two functions on the same data, each with its own idea of what is too large.

* `Numeral.chars`, `Numeral.read?` — the text of a numeral and its reader, which
  takes the longest numeral that the text starts with.
* `Numeral.toInt?` — the integer, for a numeral without fraction and exponent;
  minus zero is not an integer.
* `Numeral.toDouble?` — the double, unless it would be infinite.
-/

namespace QueryPlan

/-- A power of ten as it is written: its sign and its digits. -/
structure Exponent where
  /-- Is there a minus sign? -/
  negative : Bool
  /-- The digits, at least one. -/
  digits : List Digit
  deriving DecidableEq, Repr

/-- A number as it is written. -/
structure Numeral where
  /-- Is there a minus sign? -/
  negative : Bool
  /-- The digits in front of the point. -/
  whole : List Digit
  /-- The digits behind the point; none when there is no point. -/
  fraction : List Digit
  /-- The power of ten, if one is written. -/
  exponent : Option Exponent
  deriving DecidableEq, Repr

/-- The power of ten that an exponent stands for. -/
def Exponent.toInt (e : Exponent) : Int :=
  if e.negative then -(Decimal.value e.digits : Int) else Decimal.value e.digits

namespace Numeral

/-- An integer as a numeral. -/
def ofInt (i : Int) : Numeral := ⟨decide (i < 0), Decimal.digits i.natAbs, [], none⟩

/-! ## Writing -/

/-- The text of a sign that is written only when it is a minus. -/
def signChars (negative : Bool) : List Char := if negative then ['-'] else []

/-- The text of a fraction: nothing at all when there are no digits. -/
def fractionChars (ds : List Digit) : List Char :=
  if ds = [] then [] else '.' :: Decimal.chars ds

/-- The text of an exponent, whose sign is always written. -/
def exponentChars : Option Exponent → List Char
  | none => []
  | some e => 'e' :: (if e.negative then '-' else '+') :: Decimal.chars e.digits

/-- The text of a numeral. -/
def chars (n : Numeral) : List Char :=
  signChars n.negative ++ Decimal.chars n.whole ++ fractionChars n.fraction ++
    exponentChars n.exponent

/-! ## Reading -/

/-- The digits a text starts with, and the rest. -/
def takeDigits : List Char → List Digit × List Char
  | [] => ([], [])
  | c :: cs =>
    match Digit.ofChar? c with
    | none => ([], c :: cs)
    | some d => let (ds, rest) := takeDigits cs; (d :: ds, rest)

/-- Digits in front of the point: at least one, and a leading zero only alone. -/
def readWhole? (cs : List Char) : Option (List Digit × List Char) :=
  match takeDigits cs with
  | ([], _) => none
  | (d :: ds, rest) => if d.val = 0 ∧ ds ≠ [] then none else some (d :: ds, rest)

/-- At least one digit. -/
def readDigits? (cs : List Char) : Option (List Digit × List Char) :=
  match takeDigits cs with
  | ([], _) => none
  | (ds, rest) => some (ds, rest)

/-- A fraction, if the text starts with a point. -/
def readFraction? : List Char → Option (List Digit × List Char)
  | '.' :: cs => readDigits? cs
  | cs => some ([], cs)

/-- The sign and the digits behind the letter of an exponent. -/
def readPower? : List Char → Option (Exponent × List Char)
  | '-' :: cs => (readDigits? cs).map fun (ds, rest) => (⟨true, ds⟩, rest)
  | '+' :: cs => (readDigits? cs).map fun (ds, rest) => (⟨false, ds⟩, rest)
  | cs => (readDigits? cs).map fun (ds, rest) => (⟨false, ds⟩, rest)

/-- An exponent, if the text starts with its letter, small or capital. -/
def readExponent? : List Char → Option (Option Exponent × List Char)
  | 'e' :: cs => (readPower? cs).map fun (e, rest) => (some e, rest)
  | 'E' :: cs => (readPower? cs).map fun (e, rest) => (some e, rest)
  | cs => some (none, cs)

/-- A minus sign, if the text starts with one. -/
def readSign : List Char → Bool × List Char
  | '-' :: cs => (true, cs)
  | cs => (false, cs)

/-- The numeral that a text starts with, and the rest. -/
def read? (cs : List Char) : Option (Numeral × List Char) := do
  let (negative, cs) := readSign cs
  let (whole, cs) ← readWhole? cs
  let (fraction, cs) ← readFraction? cs
  let (exponent, cs) ← readExponent? cs
  return (⟨negative, whole, fraction, exponent⟩, cs)

/-! ## The integer -/

/-- The integer a numeral stands for.  A fraction or an exponent, whatever its value, makes
it no integer, and so does a minus sign in front of zero. -/
def toInt? (n : Numeral) : Option Int :=
  if n.fraction ≠ [] ∨ n.exponent.isSome then none
  else
    let v := Decimal.value n.whole
    if n.negative then (if v = 0 then none else some (-v)) else some v

/-! ## The double

Digits are gathered into a 64-bit whole number as long as they fit; the first
one that does not ends the gathering.  Whole digits behind it only raise the
power of ten, fraction digits behind it are dropped.  The gathered number is
rounded to a double and then multiplied or divided by a double power of ten,
rounding again. -/

/-- Gathers whole digits; returns the number and how many digits were left over. -/
def gatherWhole (n : Nat) : List Digit → Nat × Nat
  | [] => (n, 0)
  | d :: ds =>
    if 10 * n + d.val < Power.two 64 then gatherWhole (10 * n + d.val) ds
    else (n, ds.length + 1)

/-- Gathers fraction digits; returns the number and how many digits went into it. -/
def gatherFraction (n taken : Nat) : List Digit → Nat × Nat
  | [] => (n, taken)
  | d :: ds =>
    if 10 * n + d.val < Power.two 64 then gatherFraction (10 * n + d.val) (taken + 1) ds
    else (n, taken)

/-- The largest power of ten that is multiplied or divided by in one step. -/
def powerStep : Nat := 308

/-- The double power of ten. -/
def powerOfTen (k : Nat) : Double := Double.ofNat (Power.ten k)

/-- Scales a magnitude by `10 ^ e`; `none` when it becomes infinite.  Dividing a 64-bit
number twice by the largest step gives zero, so three rounds always suffice. -/
def scaleBy (f : Double) (e : Int) : Nat → Option Double
  | 0 => some (Double.zero false)
  | rounds + 1 =>
    if e.natAbs ≤ powerStep then
      if 0 ≤ e then
        let g := f.mul (powerOfTen e.natAbs)
        if g.isInfinite then none else some g
      else some (f.div (powerOfTen e.natAbs))
    else if f.isZero then some f
    else if 0 ≤ e then none
    else scaleBy (f.div (powerOfTen powerStep)) (e + powerStep) rounds

/-- The double a numeral stands for, unless it is too large for one. -/
def toDouble? (n : Numeral) : Option Double :=
  let (significand, left) := gatherWhole 0 n.whole
  let (significand, taken) := gatherFraction significand 0 n.fraction
  let written := (n.exponent.map Exponent.toInt).getD 0
  (scaleBy (Double.ofNat significand) (left - taken + written) 4).map
    (Double.withSign n.negative)

end Numeral

end QueryPlan
