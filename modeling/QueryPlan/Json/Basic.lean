import QueryPlan.Number.Numeral

/-!
# JSON values

A JSON value as it stands in a text.  Numbers are kept as written
(`Numeral`), the members of an object keep their order and their repetitions, and
text is a list of characters.

A JSON text may name one half of a surrogate pair in an escape.  Such a string is
well formed, yet it has no characters; a value that is made of one can be skipped
but not read, and is `Json.textless` here.
-/

namespace QueryPlan

/-- A JSON value. -/
inductive Json where
  /-- The word `null`. -/
  | null
  /-- One of the words `true` and `false`. -/
  | bool (b : Bool)
  /-- A number, as written. -/
  | num (n : Numeral)
  /-- A string. -/
  | str (s : List Char)
  /-- An array. -/
  | arr (items : List Json)
  /-- An object: keys and values in the order of the text. -/
  | obj (members : List (List Char × Json))
  /-- A string, or an object one of whose keys is a string, that has no characters. -/
  | textless

end QueryPlan
