import QueryPlan.Json.Basic
import QueryPlan.Json.Text

/-!
# Writing JSON

The two customary ways of writing a JSON value differ only in their blanks, so
there is one printer with a `JsonStyle`: what stands in front of each item of an
array or object, by depth, and what stands behind the colon of a member.
`JsonStyle.compact` writes no blank at all; `JsonStyle.indented` puts each item on
a line of its own, two blanks further in for each level.  An empty array or object
is two brackets in both.

Each printer is handed the text that comes after, so nothing is copied twice and a
statement about what is read back can say at once what is left.
-/

namespace QueryPlan

/-- Where a way of writing JSON puts blanks. -/
structure JsonStyle where
  /-- What stands in front of an item, or of a closing bracket, at the given depth. -/
  line : Nat → List Char
  /-- What stands between a member's colon and its value. -/
  gap : List Char

namespace JsonStyle

/-- No blanks. -/
def compact : JsonStyle := ⟨fun _ => [], []⟩

/-- One item a line, two blanks for each level, one blank behind a colon. -/
def indented : JsonStyle := ⟨fun depth => '\n' :: List.replicate (2 * depth) ' ', [' ']⟩

end JsonStyle

namespace Json

mutual

/-- The text of a value at a depth, in front of `rest`.  A value without characters is
written as `null`. -/
def printBefore (st : JsonStyle) (depth : Nat) : Json → List Char → List Char
  | .null, rest => 'n' :: 'u' :: 'l' :: 'l' :: rest
  | .bool true, rest => 't' :: 'r' :: 'u' :: 'e' :: rest
  | .bool false, rest => 'f' :: 'a' :: 'l' :: 's' :: 'e' :: rest
  | .num n, rest => n.chars ++ rest
  | .str s, rest => JsonText.quote s ++ rest
  | .arr [], rest => '[' :: ']' :: rest
  | .arr (x :: xs), rest =>
    '[' :: (st.line (depth + 1) ++ printBefore st (depth + 1) x
      (printItems st (depth + 1) xs (st.line depth ++ ']' :: rest)))
  | .obj [], rest => '{' :: '}' :: rest
  | .obj ((key, x) :: ms), rest =>
    '{' :: (st.line (depth + 1) ++ (JsonText.quote key ++ ':' :: (st.gap ++
      printBefore st (depth + 1) x
        (printMembers st (depth + 1) ms (st.line depth ++ '}' :: rest)))))
  | .textless, rest => 'n' :: 'u' :: 'l' :: 'l' :: rest

/-- The items of an array behind the first, each with its comma, in front of `rest`. -/
def printItems (st : JsonStyle) (depth : Nat) : List Json → List Char → List Char
  | [], rest => rest
  | x :: xs, rest => ',' :: (st.line depth ++ printBefore st depth x (printItems st depth xs rest))

/-- The members of an object behind the first, each with its comma, in front of `rest`. -/
def printMembers (st : JsonStyle) (depth : Nat) :
    List (List Char × Json) → List Char → List Char
  | [], rest => rest
  | (key, x) :: ms, rest =>
    ',' :: (st.line depth ++ (JsonText.quote key ++ ':' :: (st.gap ++
      printBefore st depth x (printMembers st depth ms rest))))

end

/-- The characters of a value. -/
def print (st : JsonStyle) (j : Json) : List Char := printBefore st 0 j []

/-- The text of a value. -/
def write (st : JsonStyle) (j : Json) : String := String.ofList (print st j)

end Json

end QueryPlan
