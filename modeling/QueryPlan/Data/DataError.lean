/-!
# Errors of the data layer

Two things go wrong with data alone: a value has another type than the caller
asked for, and a reference does not decode.  A type mismatch can show the
offending value; since a value's text has no length limit, at most its first
hundred characters are kept (`excerpt`).
-/

namespace QueryPlan

/-- What goes wrong with data. -/
inductive DataError where
  /-- A value has another type than the one asked for; its text may be shown. -/
  | typeMismatch (expected actual : String) (shown : Option String)
  /-- A reference does not decode. -/
  | invalidRef (detail : String)
  deriving DecidableEq, Repr

namespace DataError

/-! ## Showing a value -/

/-- How many characters of a value's text an error keeps. -/
def excerptLength : Nat := 100

/-- A text cut to the length that an error keeps, with three dots where it was cut. -/
def excerpt (cs : List Char) : List Char :=
  if excerptLength < cs.length then cs.take excerptLength ++ ['.', '.', '.'] else cs

/-- A type mismatch that shows nothing. -/
def mismatch (expected actual : String) : DataError := .typeMismatch expected actual none

/-- A type mismatch that shows the offending value. -/
def mismatchShowing {α : Type} [ToString α] (expected actual : String) (x : α) : DataError :=
  .typeMismatch expected actual (some (String.ofList (excerpt (toString x).toList)))

/-! ## Messages -/

/-- The text of an error. -/
def message : DataError → String
  | .typeMismatch expected actual none =>
    "type mismatch: expected " ++ expected ++ ", got " ++ actual
  | .typeMismatch expected actual (some shown) =>
    "type mismatch: expected " ++ expected ++ ", got " ++ actual ++ " (value: " ++ shown ++ ")"
  | .invalidRef detail => "invalid reference: " ++ detail

end DataError

end QueryPlan
