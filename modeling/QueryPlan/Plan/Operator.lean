import QueryPlan.Plan.Bindings
import QueryPlan.Plan.Cancellation
import QueryPlan.Plan.Description

/-!
# The contract of a plan node

Whatever can be driven as a node of a plan, leaf or combinator, implements
`Operator`.  A consumer moves two cursors:

* `next` moves to the next result; once it has said no, it keeps saying no;
* `nextPath` stays on the result and moves to the next way of reaching it, that is
  to the next set of tag bindings.

`contains` tests membership apart from both cursors, so an intersection can drive
its cheapest child and test the others.  When `next` has said no, `err` tells
whether the node ran out of results or was stopped.

An operation that may stop early is handed the `Signal` that its context shows; a
call is short, so one call sees one signal.  The class promises nothing about an
implementation: what a proof needs to know of a node is a hypothesis or a theorem.
-/

namespace QueryPlan

/-- A node of a plan whose state is a `σ` and which enumerates things of type `α`. -/
class Operator (σ : Type) (α : outParam Type) where
  /-- The identity given to it when it was built. -/
  uid : σ → Uid
  /-- A label for logs and descriptions. -/
  label : σ → String
  /-- What it enumerates. -/
  domain : σ → Domain
  /-- Where its cursor stands. -/
  state : σ → CursorState
  /-- The error that stopped it; nothing after it merely ran out. -/
  err : σ → Option QueryError
  /-- How many results it has. -/
  size : σ → Size
  /-- Sizes and costs. -/
  stats : σ → Stats
  /-- Its children. -/
  children : σ → List Outline
  /-- The result the cursor stands on. -/
  result : σ → Option α
  /-- Writes the node's tag bindings over a map. -/
  publish : σ → Bindings α → Bindings α
  /-- Moves to the next result. -/
  next : Signal → σ → Bool × σ
  /-- Moves to the next way of reaching the current result. -/
  nextPath : Signal → σ → Bool × σ
  /-- Is the candidate one of the results? -/
  contains : Signal → α → σ → Bool × σ
  /-- Moves both cursors back to the start, without releasing anything. -/
  rewind : σ → σ
  /-- Releases what the node owns. -/
  close : σ → Except QueryError Unit × σ
  /-- The rows that `next` has not passed yet; for each, how often `nextPath` can be asked
  until it says no. -/
  pending : σ → List Nat

namespace Operator

variable {σ α : Type} [Operator σ α]

/-- What a node tells about itself. -/
def info (it : σ) : NodeInfo :=
  ⟨uid it, label it, domain it, state it, size it, err it⟩

/-- A snapshot of the tree below a node. -/
def outline (it : σ) : Outline := .node (info it) (children it)

/-- What is shown of the tree below a node. -/
def describe (it : σ) : Description := (outline it).describe

end Operator

/-- A kind of node that there are no nodes of. -/
inductive NoNode (α : Type) : Type

instance {α : Type} : Operator (NoNode α) α where
  uid := nofun
  label := nofun
  domain := nofun
  state := nofun
  err := nofun
  size := nofun
  stats := nofun
  children := nofun
  result := nofun
  publish := nofun
  next _ := nofun
  nextPath _ := nofun
  contains _ _ := nofun
  rewind := nofun
  close := nofun
  pending := nofun

end QueryPlan
