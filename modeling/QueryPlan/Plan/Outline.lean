import QueryPlan.Plan.Identity
import QueryPlan.Plan.Domain
import QueryPlan.Plan.Size
import QueryPlan.Plan.Progress
import QueryPlan.Plan.QueryError

/-!
# Outlines of plans

An `Outline` is a snapshot of a plan tree, without the things it enumerates: what
every node tells about itself, and its children.  Trees whose nodes enumerate
different domains have outlines of one type.
-/

namespace QueryPlan

/-- What a node tells about itself. -/
structure NodeInfo where
  /-- Its identity. -/
  uid : Uid
  /-- Its label, which need not be unique. -/
  label : String
  /-- What it enumerates. -/
  domain : Domain
  /-- Where its cursor stands. -/
  state : CursorState
  /-- How many results it has. -/
  size : Size
  /-- The error that stopped it. -/
  err : Option QueryError
  deriving DecidableEq, Repr

/-- A snapshot of a plan tree. -/
inductive Outline where
  /-- A node and the snapshots of its children. -/
  | node (info : NodeInfo) (children : List Outline)

namespace Outline

mutual

/-- The nodes of a tree, each before its children. -/
def preorder : Outline → List NodeInfo
  | .node info children => info :: preorderAll children

/-- The nodes of several trees, one tree after the other. -/
def preorderAll : List Outline → List NodeInfo
  | [] => []
  | o :: os => preorder o ++ preorderAll os

end

end Outline

end QueryPlan
