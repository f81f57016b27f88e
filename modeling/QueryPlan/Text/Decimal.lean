/-!
# Decimal digits

A natural number is written as the list of its decimal digits, most significant
first and without leading zeros; zero is the single digit `0`.  Digits are
elements of `Fin 10`, so a list of them cannot hold anything else, and text
enters only at the edge (`Digit.toChar`, `Digit.ofChar?`).

* `Decimal.value_digits` — the digits of a number read back as that number.
* `Digit.ofChar?_toChar` — a digit's character reads back as that digit.
-/

namespace QueryPlan

/-! ## Digits and their characters -/

/-- A decimal digit. -/
abbrev Digit := Fin 10

namespace Digit

/-- The character a digit is written with. -/
def toChar (d : Digit) : Char := Char.ofNat (48 + d.val)

/-- The digit zero. -/
def zero : Digit := ⟨0, Nat.zero_lt_succ 9⟩

/-- The digit a character stands for, if it is one of `0` to `9`. -/
def ofChar? (c : Char) : Option Digit :=
  if h : 48 ≤ c.toNat ∧ c.toNat < 58 then some ⟨c.toNat - 48, by omega⟩ else none

theorem ofChar?_toChar (d : Digit) : ofChar? d.toChar = some d := by
  revert d; decide

end Digit

namespace Decimal

/-! ## Numbers and digit lists -/

/-- The number a digit list stands for. -/
def value (ds : List Digit) : Nat := ds.foldl (fun n d => 10 * n + d.val) 0

/-- The digits of a number, most significant first. -/
def digits (n : Nat) : List Digit :=
  if n < 10 then [Fin.ofNat 10 n] else digits (n / 10) ++ [Fin.ofNat 10 n]

theorem value_append_singleton (ds : List Digit) (d : Digit) :
    value (ds ++ [d]) = 10 * value ds + d.val := by
  simp [value, List.foldl_append]

theorem value_digits (n : Nat) : value (digits n) = n := by
  rw [digits]
  split
  · simp only [value, List.foldl_cons, List.foldl_nil, Fin.ofNat]
    omega
  · rw [value_append_singleton, value_digits (n / 10)]
    simp only [Fin.ofNat]
    omega

/-- The characters of a digit list. -/
def chars (ds : List Digit) : List Char := ds.map Digit.toChar

/-! ## Written numbers -/

/-- A natural number in decimal. -/
def ofNat (n : Nat) : List Char := chars (digits n)

/-- An integer in decimal, with a minus sign when it is negative. -/
def ofInt (i : Int) : List Char :=
  if i < 0 then '-' :: ofNat i.natAbs else ofNat i.natAbs

end Decimal

end QueryPlan
