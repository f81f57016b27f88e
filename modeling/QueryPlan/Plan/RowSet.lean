import QueryPlan.Plan.Cancellation
import QueryPlan.Plan.Progress
import QueryPlan.Plan.Size
import QueryPlan.Plan.Tags
import QueryPlan.Plan.Domain

/-!
# Fixed sets of rows

The leaf that has results: a list of rows, each a value with the witnesses by which
it is reached.  `RowSet` is what never changes and `RowCursor` what a run changes.
The leaf publishes its value under the names of its tags and the witness the path
cursor stands on under a name of its own.

Unlike the empty leaves it looks at its context, and a fired context stops it for
good (`RowCursor.stop`).
-/

namespace QueryPlan

/-- A result and the witnesses by which it is reached. -/
structure Row (α : Type) where
  /-- The result. -/
  value : α
  /-- The ways of reaching it. -/
  witnesses : List α
  deriving Repr

namespace Row

variable {α : Type}

/-- The number of visits a run with paths pays to a row: one for each witness, and one if
there is no witness. -/
def paths (r : Row α) : Nat := max 1 r.witnesses.length

end Row

/-- A list of rows and the names under which they are published. -/
structure RowSet (α : Type) where
  /-- The rows. -/
  rows : List (Row α)
  /-- The names bound to the value, and the leaf's fixed bindings. -/
  tags : Tags α
  /-- The name bound to the witness. -/
  witnessTag : Option String
  deriving Repr

/-- Where a run over a row set stands. -/
structure RowCursor where
  /-- State and count. -/
  progress : Progress
  /-- The row that comes next. -/
  index : Nat
  /-- The row the cursor stands on. -/
  current : Option Nat
  /-- The witness the path cursor stands on. -/
  path : Nat
  /-- The error that stopped the leaf. -/
  err : Option QueryError
  /-- How many steps were asked for. -/
  nextCalls : Nat
  /-- How many membership tests were asked for. -/
  containsCalls : Nat
  /-- How many of them said yes. -/
  containsHits : Nat
  /-- How often the leaf's resources were released. -/
  releases : Nat
  /-- Was the leaf closed? -/
  closed : Bool
  deriving DecidableEq, Repr

namespace RowCursor

/-- The cursor of a newly built leaf. -/
def start : RowCursor := ⟨.new .unstarted, 0, none, 0, none, 0, 0, 0, 0, false⟩

/-- The cursor after an error. -/
def fail (c : RowCursor) (e : QueryError) : RowCursor :=
  { c with err := some e, current := none, progress := c.progress.fail }

/-- The stopped cursor, if the context has fired. -/
def stop (c : RowCursor) (s : Signal) : Option RowCursor := s.error?.map c.fail

/-- Back to the first row.  An error and the counts of calls stay. -/
def rewind (c : RowCursor) : RowCursor :=
  { c with index := 0, current := none, path := 0, progress := c.progress.rewind }

/-- Releases the leaf's resources, the first time; reports the error that stopped it. -/
def close (c : RowCursor) : Except QueryError Unit × RowCursor :=
  let c := if c.closed then c else { c with closed := true, releases := c.releases + 1 }
  match c.err with
  | some e => (.error e, c)
  | none => (.ok (), c)

end RowCursor

namespace RowSet

variable {α : Type}

/-! ## What the leaf tells about itself -/

/-- A row set without names. -/
def ofRows (rows : List (Row α)) : RowSet α := ⟨rows, .empty, none⟩

/-- Rows without witnesses. -/
def ofValues (xs : List α) : RowSet α := ofRows (xs.map fun x => ⟨x, []⟩)

/-- The number of rows. -/
def size (l : RowSet α) : Size := .known l.rows.length

/-- Sizes and costs. -/
def stats (l : RowSet α) (c : RowCursor) : Stats :=
  ⟨1, 1, l.size, c.nextCalls, c.containsCalls, c.containsHits⟩

/-- The row the cursor stands on. -/
def currentRow (l : RowSet α) (c : RowCursor) : Option (Row α) := c.current.bind (l.rows[·]?)

/-- The result the cursor stands on. -/
def result (l : RowSet α) (c : RowCursor) : Option α := (l.currentRow c).map Row.value

/-- The witness the path cursor stands on. -/
def witness (l : RowSet α) (c : RowCursor) : Option α :=
  (l.currentRow c).bind (·.witnesses[c.path]?)

/-- Writes the leaf's bindings: those of its tags, then the witness under its name. -/
def publish (l : RowSet α) (c : RowCursor) (dst : Bindings α) : Bindings α :=
  let dst := l.tags.publish (l.result c) dst
  match l.witnessTag, l.witness c with
  | some tag, some x => dst.insert tag x
  | _, _ => dst

/-- The rows that are still to come, as the number of paths each of them has. -/
def pending (l : RowSet α) (c : RowCursor) : List Nat := (l.rows.drop c.index).map Row.paths

/-! ## Moving the cursors -/

/-- Moves to the next row. -/
def next (l : RowSet α) (s : Signal) (c : RowCursor) : Bool × RowCursor :=
  if c.progress.state.isTerminal then (false, c)
  else
    match c.stop s with
    | some c => (false, c)
    | none =>
      let c := { c with nextCalls := c.nextCalls + 1 }
      if c.index < l.rows.length then
        (true, { c with
          current := some c.index
          index := c.index + 1
          path := 0
          progress := c.progress.position })
      else (false, { c with current := none, progress := c.progress.exhaust })

/-- Moves to the next witness of the current row. -/
def nextPath (l : RowSet α) (s : Signal) (c : RowCursor) : Bool × RowCursor :=
  match l.currentRow c with
  | none => (false, c)
  | some row =>
    match c.stop s with
    | some c => (false, c)
    | none =>
      if c.path + 1 < row.witnesses.length then (true, { c with path := c.path + 1 })
      else (false, c)

/-- Is the candidate the value of a row? -/
def contains [BEq α] (l : RowSet α) (s : Signal) (x : α) (c : RowCursor) : Bool × RowCursor :=
  match c.stop s with
  | some c => (false, c)
  | none =>
    let c := { c with containsCalls := c.containsCalls + 1 }
    if l.rows.any (·.value == x) then (true, { c with containsHits := c.containsHits + 1 })
    else (false, c)

end RowSet

end QueryPlan
