import QueryPlan.Plan.Event
import QueryPlan.Plan.Tree.Moves

/-!
# Building plan nodes

Building a node takes an identity from a counter and may leave an event in the
log; `Build` is a computation with these two effects.  A probe takes its identity
after its children have theirs, so in a tree identities grow from the leaves to the
root.

A `Transform` makes another tree of one that is already built and perhaps already
running, as a planner does when it replaces a node.
-/

namespace QueryPlan

/-! ## Effects -/

/-- The source of identities and the log. -/
structure BuildState where
  /-- Hands out identities. -/
  uids : UidCounter
  /-- The events so far, in order. -/
  log : List Event

/-- A computation that builds nodes. -/
abbrev Build := StateM BuildState

namespace Build

/-- Takes an identity. -/
def fresh : Build Uid := do
  let s ← get
  let (uid, uids) := s.uids.next
  set { s with uids }
  return uid

/-- Leaves an event in the log. -/
def emit (e : Event) : Build Unit := modify fun s => { s with log := s.log ++ [e] }

end Build

/-! ## Nodes -/

namespace Plan

variable {κ α : Type}

/-- Builds a node without results. -/
def buildNull : Build (Plan κ α) := return .null (← Build.fresh)

/-- Builds a node around a failure, and logs that. -/
def buildError [Item α] (err : QueryError) : Build (Plan κ α) := do
  let uid ← Build.fresh
  Build.emit (.builtFailed uid err (Item.domain α))
  return .error uid err

/-- Builds a leaf with rows. -/
def buildFixed (leaf : RowSet α) : Build (Plan κ α) := return .fixed (← Build.fresh) leaf

/-- Builds an intersection. -/
def buildProbe (primary : Plan κ α) (others : List (Plan κ α)) : Build (Plan κ α) :=
  return .probe (← Build.fresh) primary others

end Plan

/-! ## Transforms -/

/-- What makes another tree of a tree. -/
abbrev Transform (κ α : Type) := Tree κ α → Build (Tree κ α)

namespace Transform

variable {κ α : Type}

/-- Applies transforms in order. -/
def applyAll (ms : List (Transform κ α)) (t : Tree κ α) : Build (Tree κ α) :=
  ms.foldlM (fun t m => m t) t

variable [Item α] [Operator κ α]

/-- Leaves the tree as it is. -/
def identity : Transform κ α := fun t => pure t

/-- Replaces a tree that is known to have no results, and has met no error, by a node
without results. -/
def prune : Transform κ α := fun t =>
  if t.cursor.size.isExactZero && t.cursor.err.isNone then Tree.start <$> Plan.buildNull
  else pure t

/-- Replaces a tree by a node that reports an error. -/
def fail (err : QueryError) : Transform κ α := fun _ => Tree.start <$> Plan.buildError err

/-- Puts an intersection with a set of rows above a tree, which goes on where it stands. -/
def restrict (leaf : RowSet α) : Transform κ α := fun t => do
  let other ← Plan.buildFixed leaf
  let uid ← Build.fresh
  return ⟨.probe uid t.plan [other], .probe none t.cursor (.cons (.start other) .nil)⟩

end Transform

end QueryPlan
