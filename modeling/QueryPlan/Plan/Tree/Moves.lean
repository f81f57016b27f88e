import QueryPlan.Plan.Tree.Views

/-!
# Driving a plan tree

The operations that move a tree's cursors: testing a candidate, stepping, stepping
through the ways of reaching a result, rewinding and releasing.

An intersection's `next` skips the results of its first child that another child
lacks.  Every skip uses up one of that child's pending rows, so one round more than
there are pending rows is fuel enough for the loop (`Cursor.search`).
-/

namespace QueryPlan

variable {κ α : Type} [Item α] [Operator κ α]

namespace Cursor

mutual

/-- Is the candidate one of the tree's results?  An intersection asks its children in
order and stops at the first that says no. -/
def contains (s : Signal) (x : α) : {p : Plan κ α} → Cursor p → Bool × Cursor p
  | _, .null => (false, .null)
  | _, .error => (false, .error)
  | .fixed _ leaf, .fixed c =>
    let (yes, c) := leaf.contains s x c
    (yes, .fixed c)
  | _, .probe e c cs =>
    match contains s x c with
    | (false, c) => (false, .probe e c cs)
    | (true, c) =>
      let (yes, cs) := containsAll s x cs
      (yes, .probe e c cs)
  | _, .custom n =>
    let (yes, n) := Operator.contains s x n
    (yes, .custom n)

/-- Is the candidate one of the results of each of several trees? -/
def containsAll (s : Signal) (x : α) :
    {ps : List (Plan κ α)} → Cursors ps → Bool × Cursors ps
  | _, .nil => (true, .nil)
  | _, .cons c cs =>
    match contains s x c with
    | (false, c) => (false, .cons c cs)
    | (true, c) =>
      let (yes, cs) := containsAll s x cs
      (yes, .cons c cs)

end

/-- Steps through the first child's results, by `step`, until the others have one too, an
error turns up or the results run out; `none` if that takes more rounds than there is fuel.
The answer is whether a result was found, the error that stopped the search, and the
cursors of the children. -/
def search {p : Plan κ α} {os : List (Plan κ α)} (step : Cursor p → Bool × Cursor p)
    (s : Signal) :
    Nat → Cursor p → Cursors os → Option (Bool × Option QueryError × Cursor p × Cursors os)
  | 0, _, _ => none
  | rounds + 1, c, cs =>
    match step c with
    | (false, c) => some (false, (err c).orElse fun _ => firstErr cs, c, cs)
    | (true, c) =>
      match result c with
      | none => search step s rounds c cs
      | some x =>
        match containsAll s x cs with
        | (true, cs) => some (true, none, c, cs)
        | (false, cs) =>
          match firstErr cs with
          | some e => some (false, some e, c, cs)
          | none => search step s rounds c cs

/-- Moves to the next result. -/
def next (s : Signal) : {p : Plan κ α} → Cursor p → Bool × Cursor p
  | .null _, c => (false, c)
  | .error _ _, c => (false, c)
  | .fixed _ leaf, .fixed c =>
    let (yes, c) := leaf.next s c
    (yes, .fixed c)
  | .probe _ _ _, .probe (some e) c cs => (false, .probe (some e) c cs)
  | .probe _ _ _, .probe none c cs =>
    match s.error? with
    | some e => (false, .probe (some e) c cs)
    | none =>
      match search (next s) s ((pending c).length + 1) c cs with
      | some (yes, e, c, cs) => (yes, .probe e c cs)
      | none => (false, .probe none c cs)
  | .custom _, .custom n =>
    let (yes, n) := Operator.next s n
    (yes, .custom n)

/-- Moves to the next way of reaching the current result; an intersection leaves that to its
first child. -/
def nextPath (s : Signal) : {p : Plan κ α} → Cursor p → Bool × Cursor p
  | _, .null => (false, .null)
  | _, .error => (false, .error)
  | .fixed _ leaf, .fixed c =>
    let (yes, c) := leaf.nextPath s c
    (yes, .fixed c)
  | _, .probe e c cs =>
    let (yes, c) := nextPath s c
    (yes, .probe e c cs)
  | _, .custom n =>
    let (yes, n) := Operator.nextPath s n
    (yes, .custom n)

mutual

/-- Moves every cursor of the tree back to its start; errors stay. -/
def rewind : {p : Plan κ α} → Cursor p → Cursor p
  | _, .null => .null
  | _, .error => .error
  | _, .fixed c => .fixed c.rewind
  | _, .probe e c cs => .probe e (rewind c) (rewindAll cs)
  | _, .custom n => .custom (Operator.rewind n)

/-- Moves every cursor of several trees back to its start. -/
def rewindAll : {ps : List (Plan κ α)} → Cursors ps → Cursors ps
  | _, .nil => .nil
  | _, .cons c cs => .cons (rewind c) (rewindAll cs)

end

/-- The first outcome, unless it is a success and the second has something to report. -/
def firstFailure (a b : Except QueryError Unit) : Except QueryError Unit :=
  match a with
  | .ok () => b
  | .error e => .error e

/-- An error to report, as an outcome. -/
def failureOf (e : Option QueryError) : Except QueryError Unit :=
  match e with
  | none => .ok ()
  | some e => .error e

mutual

/-- Releases every node of the tree, whatever some of them report; the outcome is the first
error, a node's before its children's. -/
def close : {p : Plan κ α} → Cursor p → Except QueryError Unit × Cursor p
  | _, .null => (.ok (), .null)
  | .error _ e, .error => (.error e, .error)
  | _, .fixed c =>
    let (r, c) := c.close
    (r, .fixed c)
  | _, .probe e c cs =>
    let (r, c) := close c
    let (r', cs) := closeAll cs
    (firstFailure (failureOf e) (firstFailure r r'), .probe e c cs)
  | _, .custom n =>
    let (r, n) := Operator.close n
    (r, .custom n)

/-- Releases every node of several trees. -/
def closeAll : {ps : List (Plan κ α)} → Cursors ps → Except QueryError Unit × Cursors ps
  | _, .nil => (.ok (), .nil)
  | _, .cons c cs =>
    let (r, c) := close c
    let (r', cs) := closeAll cs
    (firstFailure r r', .cons c cs)

end

end Cursor

/-! ## Trees as nodes -/

instance (p : Plan κ α) : Operator (Cursor p) α where
  uid := Cursor.uid
  label := Cursor.label
  domain := Cursor.domain
  state := Cursor.state
  err := Cursor.err
  size := Cursor.size
  stats := Cursor.stats
  children := Cursor.children
  result := Cursor.result
  publish := Cursor.publish
  next s c := Cursor.next s c
  nextPath s c := Cursor.nextPath s c
  contains s x c := Cursor.contains s x c
  rewind := Cursor.rewind
  close := Cursor.close
  pending := Cursor.pending

end QueryPlan
