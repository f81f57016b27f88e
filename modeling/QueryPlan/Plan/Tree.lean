import QueryPlan.Plan.Operator
import QueryPlan.Plan.RowSet

/-!
# Plan trees

A `Plan` is the part of a plan tree that never changes: which nodes there are, with
their identities and their data.  A `Cursor` is the part that a run changes, and its
shape follows the plan, so an operation cannot lose a node or change one's kind.

There are four kinds of node, and room for more:

* `null` is known to have no results;
* `error` stands for a branch that could not be built and reports why;
* `fixed` enumerates a `RowSet`;
* `probe` intersects: it drives its first child and tests the others for membership;
* `custom` is any other implementation of `Operator`, given in its first state.
-/

namespace QueryPlan

/-! ## Plans and cursors -/

/-- What never changes about a plan tree. -/
inductive Plan (κ α : Type) where
  /-- No results, by construction. -/
  | null (uid : Uid)
  /-- No results, because of an error. -/
  | error (uid : Uid) (err : QueryError)
  /-- The rows of a set. -/
  | fixed (uid : Uid) (leaf : RowSet α)
  /-- The results of the first child that all others have. -/
  | probe (uid : Uid) (primary : Plan κ α) (others : List (Plan κ α))
  /-- A node of another kind, in its first state. -/
  | custom (node : κ)

/-- A plan tree of the four kinds of node alone. -/
abbrev BasicPlan (α : Type) := Plan (NoNode α) α

variable {κ α : Type}

mutual

/-- What a run changes about a plan tree. -/
inductive Cursor : Plan κ α → Type where
  /-- Nothing. -/
  | null {uid : Uid} : Cursor (.null uid)
  /-- Nothing. -/
  | error {uid : Uid} {err : QueryError} : Cursor (.error uid err)
  /-- Where the run over the rows stands. -/
  | fixed {uid : Uid} {leaf : RowSet α} (cursor : RowCursor) : Cursor (.fixed uid leaf)
  /-- The error that stopped the intersection, and the cursors of the children. -/
  | probe {uid : Uid} {p : Plan κ α} {os : List (Plan κ α)} (err : Option QueryError)
      (primary : Cursor p) (others : Cursors os) : Cursor (.probe uid p os)
  /-- The node's present state. -/
  | custom {node : κ} (state : κ) : Cursor (.custom node)

/-- What a run changes about several plan trees. -/
inductive Cursors : List (Plan κ α) → Type where
  /-- No trees. -/
  | nil : Cursors []
  /-- The first tree and the others. -/
  | cons {p : Plan κ α} {ps : List (Plan κ α)} (c : Cursor p) (cs : Cursors ps) :
      Cursors (p :: ps)

end

namespace Cursor

mutual

/-- The cursor of a newly built tree. -/
def start : (p : Plan κ α) → Cursor p
  | .null _ => .null
  | .error _ _ => .error
  | .fixed _ _ => .fixed .start
  | .probe _ p os => .probe none (start p) (startAll os)
  | .custom node => .custom node

/-- The cursors of several newly built trees. -/
def startAll : (ps : List (Plan κ α)) → Cursors ps
  | [] => .nil
  | p :: ps => .cons (start p) (startAll ps)

end

end Cursor

/-- A plan tree with its cursor. -/
structure Tree (κ α : Type) where
  /-- The plan. -/
  plan : Plan κ α
  /-- Where a run over it stands. -/
  cursor : Cursor plan

/-- A newly built tree. -/
def Tree.start (p : Plan κ α) : Tree κ α := ⟨p, .start p⟩

end QueryPlan
