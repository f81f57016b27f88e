import QueryPlan.Plan.Build
import QueryPlan.Plan.Script

/-!
# Assembling plans from lists of nodes

A plan, or several, can be given as a flat list of node specifications, each naming
its children by their places in the list.  Nodes are built in the order of the list.
A node that was built waits in a pool until another takes it for a child; nobody else
can take it then, so the trees that are left share no node.
-/

namespace QueryPlan

/-- A plan of either domain, with scripted nodes. -/
inductive AnyPlan where
  /-- A plan that enumerates references. -/
  | ref (plan : Plan (Script Ref) Ref)
  /-- A plan that enumerates values. -/
  | value (plan : Plan (Script Value) Value)

namespace AnyPlan

/-- The outline of the newly built tree. -/
def outline : AnyPlan → Outline
  | .ref p => (Cursor.start p).outline
  | .value p => (Cursor.start p).outline

/-- The plan, if it enumerates references. -/
def ref? : AnyPlan → Option (Plan (Script Ref) Ref)
  | .ref p => some p
  | .value _ => none

/-- The plan, if it enumerates values. -/
def value? : AnyPlan → Option (Plan (Script Value) Value)
  | .value p => some p
  | .ref _ => none

end AnyPlan

/-! ## Specifications -/

/-- What a node is built from. -/
inductive NodeSpec (α : Type) where
  /-- A node without results. -/
  | null
  /-- A node around a failure. -/
  | error (err : QueryError)
  /-- A leaf with rows. -/
  | fixed (leaf : RowSet α)
  /-- An intersection of earlier nodes of the same domain. -/
  | probe (primary : Nat) (others : List Nat)
  /-- A scripted node above earlier nodes of either domain; its identity and its children
  are filled in. -/
  | script (node : Script α) (kids : List Nat)

/-- The specification of a node of either domain. -/
inductive AnySpec where
  /-- A node that enumerates references. -/
  | ref (spec : NodeSpec Ref)
  /-- A node that enumerates values. -/
  | value (spec : NodeSpec Value)

/-! ## The pool -/

/-- The nodes built so far, by place; a place is empty once its node was taken. -/
abbrev Pool := List (Option AnyPlan)

namespace Pool

/-- Takes the node at a place. -/
def take? (pool : Pool) (i : Nat) : Option (AnyPlan × Pool) :=
  match pool[i]? with
  | some (some p) => some (p, pool.set i none)
  | _ => none

/-- Takes the nodes at several places. -/
def takeAll? (pool : Pool) : List Nat → Option (List AnyPlan × Pool)
  | [] => some ([], pool)
  | i :: is => do
    let (p, pool) ← pool.take? i
    let (ps, pool) ← takeAll? pool is
    return (p :: ps, pool)

end Pool

/-! ## Assembly -/

namespace NodeSpec

variable {α : Type} [Item α]

/-- Builds a node; fails if a child is missing or of the wrong domain. -/
def build (project : AnyPlan → Option (Plan (Script α) α)) (pool : Pool) :
    NodeSpec α → Build (Option (Plan (Script α) α × Pool))
  | .null => return some (← Plan.buildNull, pool)
  | .error err => return some (← Plan.buildError err, pool)
  | .fixed leaf => return some (← Plan.buildFixed leaf, pool)
  | .probe primary others =>
    match pool.takeAll? (primary :: others) with
    | none => return none
    | some (kids, pool) =>
      match kids.mapM project with
      | some (p :: os) => return some (← Plan.buildProbe p os, pool)
      | _ => return none
  | .script node kids =>
    match pool.takeAll? kids with
    | none => return none
    | some (kids, pool) =>
      return some (.custom { node with
        uid := ← Build.fresh
        kids := kids.map AnyPlan.outline }, pool)

end NodeSpec

namespace AnySpec

/-- Builds a node and puts it into the pool. -/
def build (pool : Pool) : AnySpec → Build (Option Pool)
  | .ref spec =>
    return (← spec.build AnyPlan.ref? pool).map fun (p, pool) => pool ++ [some (.ref p)]
  | .value spec =>
    return (← spec.build AnyPlan.value? pool).map fun (p, pool) => pool ++ [some (.value p)]

/-- Builds nodes in order. -/
def buildAll (pool : Pool) : List AnySpec → Build (Option Pool)
  | [] => return some pool
  | spec :: specs => do
    match ← spec.build pool with
    | none => return none
    | some pool => buildAll pool specs

/-- Builds nodes in order and returns the last one. -/
def assemble (specs : List AnySpec) : Build (Option AnyPlan) :=
  return (← buildAll [] specs).bind fun pool => pool.getLast?.bind id

end AnySpec

end QueryPlan
