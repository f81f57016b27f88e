import QueryPlan.Plan.Operator
import QueryPlan.Plan.Tags

/-!
# Scripted nodes

A node whose answers are laid down beforehand: a list of rows that need not have a
result, the members that membership tests find, a failure at a certain row, an error
on release.  It implements the contract without any of the other nodes' habits (it
ignores its context and can report an error and go on), so it shows what a consumer
makes of a node that it knows nothing about.
-/

namespace QueryPlan

/-- A row of a scripted node. -/
structure ScriptRow (α : Type) where
  /-- The result, if the row has one. -/
  item : Option α
  /-- How many more ways of reaching it there are. -/
  paths : Nat
  deriving Repr

/-- A failure that a scripted node meets. -/
structure ScriptFailure where
  /-- The row it is met at. -/
  row : Nat
  /-- Does it stop the node? -/
  hard : Bool
  /-- What the node then reports. -/
  err : QueryError
  deriving Repr

/-- A node with prescribed answers, and where its cursor stands. -/
structure Script (α : Type) where
  /-- Its identity. -/
  uid : Uid
  /-- Its label. -/
  name : String
  /-- The rows to step through. -/
  rows : List (ScriptRow α)
  /-- The candidates that membership tests find. -/
  members : List α
  /-- The names bound to the result. -/
  tags : Tags α
  /-- The size it claims to have. -/
  size : Size
  /-- The cost it claims for a membership test. -/
  containsCost : Int
  /-- The cost it claims for a step. -/
  nextCost : Int
  /-- The failure it meets. -/
  failure : Option ScriptFailure
  /-- The error on release, unless another one was met. -/
  closeErr : Option QueryError
  /-- Its children, which it shows and never drives. -/
  kids : List Outline
  /-- State and count. -/
  progress : Progress
  /-- The row that comes next. -/
  index : Nat
  /-- The row the cursor stands on. -/
  current : Option Nat
  /-- How many more ways of reaching it were taken. -/
  path : Nat
  /-- The error met last. -/
  err : Option QueryError

namespace Script

variable {α : Type}

/-- The row the cursor stands on. -/
def currentRow (n : Script α) : Option (ScriptRow α) := n.current.bind (n.rows[·]?)

/-- The result the cursor stands on. -/
def result (n : Script α) : Option α := n.currentRow.bind ScriptRow.item

/-- The failure that is met at the next step. -/
def due (n : Script α) : Option ScriptFailure := n.failure.filter (·.row == n.index)

/-- Moves to the next row. -/
def advance (n : Script α) : Bool × Script α :=
  if n.index < n.rows.length then
    (true, { n with
      current := some n.index
      index := n.index + 1
      path := 0
      progress := n.progress.position })
  else (false, { n with current := none, progress := n.progress.exhaust })

/-- Moves to the next row, unless a failure is met that stops the node. -/
def next (n : Script α) : Bool × Script α :=
  if n.progress.state.isTerminal then (false, n)
  else
    match n.due with
    | none => n.advance
    | some f =>
      let n := { n with err := some f.err }
      if f.hard then (false, { n with current := none, progress := n.progress.fail })
      else n.advance

/-- Takes one more way of reaching the current row. -/
def nextPath (n : Script α) : Bool × Script α :=
  match n.currentRow with
  | none => (false, n)
  | some row =>
    if n.path < row.paths then
      (true, { n with path := n.path + 1, progress := n.progress.position })
    else (false, n)

/-- Back to the first row; an error stays. -/
def rewind (n : Script α) : Script α :=
  { n with index := 0, path := 0, current := none, progress := n.progress.rewind }

/-- The outcome of a release: the error met, or else the one prescribed. -/
def closing (n : Script α) : Except QueryError Unit :=
  match n.err.or n.closeErr with
  | some e => .error e
  | none => .ok ()

instance [Item α] : Operator (Script α) α where
  uid n := n.uid
  label n := n.name
  domain _ := Item.domain α
  state n := n.progress.state
  err n := n.err
  size n := n.size
  stats n := { Stats.unknown with
    containsCost := n.containsCost
    nextCost := n.nextCost
    size := n.size
    nextCalls := n.progress.produced }
  children n := n.kids
  result := result
  publish n dst := n.tags.publish n.result dst
  next _ n := n.next
  nextPath _ n := n.nextPath
  contains _ x n := (n.members.any (x == ·), n)
  rewind := rewind
  close n := (n.closing, n)
  pending n := (n.rows.drop n.index).map (·.paths + 1)

end Script

end QueryPlan
