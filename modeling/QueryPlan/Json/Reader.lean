import QueryPlan.Json.Basic
import QueryPlan.Json.Text

/-!
# Reading JSON

A reader for the strict grammar: blanks are the space, the tab and the two line
ends; nothing but blanks may stand around the value; an item is followed by a
comma and another item, or by the closing bracket.  Each reader takes the text
that is left and returns what it read and the text behind it.

The readers of values, items and members call each other, and each call passes at
least one character, so the length of the text bounds their depth: `Json.parse?`
starts with that much fuel and one step more.
-/

namespace QueryPlan.Json

/-! ## Blanks and strings -/

/-- A character that may stand between the parts of a JSON text. -/
def isBlank (c : Char) : Bool := c == ' ' || c == '\n' || c == '\t' || c == '\r'

/-- The text behind its leading blanks. -/
def skipBlanks (cs : List Char) : List Char := cs.dropWhile isBlank

/-- An object, if every key has characters. -/
def ofMembers (ms : List (Option (List Char) × Json)) : Json :=
  match ms.mapM fun (key, x) => key.map fun k => (k, x) with
  | some ms => .obj ms
  | none => .textless

/-! ## Values -/

mutual

/-- One value. -/
def readValue? : Nat → List Char → Option (Json × List Char)
  | 0, _ => none
  | fuel + 1, cs =>
    match skipBlanks cs with
    | '{' :: cs =>
      match skipBlanks cs with
      | '}' :: cs => some (.obj [], cs)
      | cs => do
        let (m, cs) ← readMember? fuel cs
        let (ms, cs) ← readMembers? fuel cs
        return (ofMembers (m :: ms), cs)
    | '[' :: cs =>
      match skipBlanks cs with
      | ']' :: cs => some (.arr [], cs)
      | cs => do
        let (x, cs) ← readValue? fuel cs
        let (xs, cs) ← readItems? fuel cs
        return (.arr (x :: xs), cs)
    | '"' :: cs => (JsonText.read? cs).map fun
        | (some s, cs) => (.str s, cs)
        | (none, cs) => (.textless, cs)
    | 'n' :: 'u' :: 'l' :: 'l' :: cs => some (.null, cs)
    | 't' :: 'r' :: 'u' :: 'e' :: cs => some (.bool true, cs)
    | 'f' :: 'a' :: 'l' :: 's' :: 'e' :: cs => some (.bool false, cs)
    | cs => (Numeral.read? cs).map fun (n, cs) => (.num n, cs)

/-- The items of an array behind the first, up to the closing bracket. -/
def readItems? : Nat → List Char → Option (List Json × List Char)
  | 0, _ => none
  | fuel + 1, cs =>
    match skipBlanks cs with
    | ']' :: cs => some ([], cs)
    | ',' :: cs => do
      let (x, cs) ← readValue? fuel cs
      let (xs, cs) ← readItems? fuel cs
      return (x :: xs, cs)
    | _ => none

/-- One member of an object: a key, a colon and a value. -/
def readMember? : Nat → List Char → Option ((Option (List Char) × Json) × List Char)
  | 0, _ => none
  | fuel + 1, cs =>
    match skipBlanks cs with
    | '"' :: cs => do
      let (key, cs) ← JsonText.read? cs
      match skipBlanks cs with
      | ':' :: cs =>
        let (x, cs) ← readValue? fuel cs
        return ((key, x), cs)
      | _ => none
    | _ => none

/-- The members of an object behind the first, up to the closing bracket. -/
def readMembers? : Nat → List Char → Option (List (Option (List Char) × Json) × List Char)
  | 0, _ => none
  | fuel + 1, cs =>
    match skipBlanks cs with
    | '}' :: cs => some ([], cs)
    | ',' :: cs => do
      let (m, cs) ← readMember? fuel cs
      let (ms, cs) ← readMembers? fuel cs
      return (m :: ms, cs)
    | _ => none

end

/-- The value that a text holds, with nothing but blanks around it. -/
def parse? (cs : List Char) : Option Json :=
  match readValue? (cs.length + 1) cs with
  | some (j, rest) => if skipBlanks rest = [] then some j else none
  | none => none

end QueryPlan.Json
