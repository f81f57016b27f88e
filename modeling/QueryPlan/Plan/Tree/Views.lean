import QueryPlan.Plan.Tree

/-!
# What a plan tree tells about itself

Identity, label, domain, state, error, size and costs of a tree's root, the tree's
outline, the root's current result, and the tag bindings of the tree.  A custom node
answers for itself; everything else is read off the plan and the cursor.

An intersection passes on the state and the result of its first child, and the
bindings of all its children.  Its size is the smallest of its children's, as
an estimate, and exact only when a child is known to be empty (`Cursor.meetSize`).
-/

namespace QueryPlan.Cursor

variable {κ α : Type} [Item α] [Operator κ α]

/-- The identity of the root. -/
def uid : {p : Plan κ α} → Cursor p → Uid
  | .null uid, _ | .error uid _, _ | .fixed uid _, _ | .probe uid _ _, _ => uid
  | .custom _, .custom n => Operator.uid n

/-- What the root enumerates. -/
def domain : {p : Plan κ α} → Cursor p → Domain
  | .custom _, .custom n => Operator.domain n
  | _, _ => Item.domain α

/-- The label of the root. -/
def label : {p : Plan κ α} → Cursor p → String
  | .null _, _ => "Null" ++ (Item.domain α).labelSuffix
  | .error _ err, _ => "Error" ++ (Item.domain α).labelSuffix ++ "(" ++ err.message ++ ")"
  | .fixed _ leaf, _ => "Fixed(" ++ String.ofList (Decimal.ofNat leaf.rows.length) ++ ")"
  | .probe _ _ _, _ => "Probe"
  | .custom _, .custom n => Operator.label n

/-- The error that stopped the root. -/
def err : {p : Plan κ α} → Cursor p → Option QueryError
  | .null _, _ => none
  | .error _ e, _ => some e
  | .fixed _ _, .fixed c => c.err
  | .probe _ _ _, .probe e _ _ => e
  | .custom _, .custom n => Operator.err n

/-- The first error among the roots of several trees. -/
def firstErr : {ps : List (Plan κ α)} → Cursors ps → Option QueryError
  | _, .nil => none
  | _, .cons c cs => (err c).orElse fun _ => firstErr cs

/-- Where the root's cursor stands: a probe is stopped by its own error and otherwise
stands where its first child does. -/
def state : {p : Plan κ α} → Cursor p → CursorState
  | _, .null => .exhausted
  | _, .error => .failed
  | _, .fixed c => c.progress.state
  | _, .probe (some _) _ _ => .failed
  | _, .probe none c _ => state c
  | _, .custom n => Operator.state n

/-- The size of an intersection whose children have these sizes: the smallest of them as an
estimate, unless a child is known to be empty. -/
def meetSize (first : Size) (others : List Size) : Size :=
  let smallest := others.foldl (fun n s => min n s.value) first.value
  if smallest = 0 ∧ (first :: others).any Size.isExactZero then .known 0
  else .estimate smallest

mutual

/-- How many results the root has. -/
def size : {p : Plan κ α} → Cursor p → Size
  | _, .null => .known 0
  | _, .error => .known 0
  | .fixed _ leaf, .fixed _ => leaf.size
  | _, .probe _ c cs => meetSize (size c) (sizes cs)
  | _, .custom n => Operator.size n

/-- How many results the roots of several trees have. -/
def sizes : {ps : List (Plan κ α)} → Cursors ps → List Size
  | _, .nil => []
  | _, .cons c cs => size c :: sizes cs

end

mutual

/-- Sizes and costs of the root: a step of an intersection pays for a step of the first
child and a test in each of the others. -/
def stats : {p : Plan κ α} → Cursor p → Stats
  | _, .null => .empty
  | _, .error => .empty
  | .fixed _ leaf, .fixed c => leaf.stats c
  | _, .probe _ c cs =>
    let primary := stats c
    let probes := probeCost cs
    { Stats.unknown with
      containsCost := primary.containsCost + probes
      nextCost := primary.nextCost + probes
      size := meetSize (size c) (sizes cs) }
  | _, .custom n => Operator.stats n

/-- What a test in each of several trees costs. -/
def probeCost : {ps : List (Plan κ α)} → Cursors ps → Int
  | _, .nil => 0
  | _, .cons c cs => (stats c).containsCost + probeCost cs

end

/-- What the root tells about itself. -/
def info {p : Plan κ α} (c : Cursor p) : NodeInfo :=
  ⟨uid c, label c, domain c, state c, size c, err c⟩

mutual

/-- A snapshot of the tree. -/
def outline : {p : Plan κ α} → Cursor p → Outline
  | .probe _ _ _, c@(.probe _ primary others) =>
    .node (info c) (outline primary :: outlines others)
  | .custom _, .custom n => Operator.outline n
  | _, c => .node (info c) []

/-- Snapshots of several trees. -/
def outlines : {ps : List (Plan κ α)} → Cursors ps → List Outline
  | _, .nil => []
  | _, .cons c cs => outline c :: outlines cs

end

/-- Snapshots of the root's children. -/
def children : {p : Plan κ α} → Cursor p → List Outline
  | _, .probe _ c cs => outline c :: outlines cs
  | _, .custom n => Operator.children n
  | _, _ => []

/-- The result the root's cursor stands on. -/
def result : {p : Plan κ α} → Cursor p → Option α
  | .fixed _ leaf, .fixed c => leaf.result c
  | _, .probe _ c _ => result c
  | _, .custom n => Operator.result n
  | _, _ => none

/-- The rows at the end of the chain of first children that are still to come. -/
def pending : {p : Plan κ α} → Cursor p → List Nat
  | .fixed _ leaf, .fixed c => leaf.pending c
  | _, .probe _ c _ => pending c
  | _, .custom n => Operator.pending n
  | _, _ => []

mutual

/-- Writes the tree's bindings over a map, a later child over an earlier one. -/
def publish : {p : Plan κ α} → Cursor p → Bindings α → Bindings α
  | .fixed _ leaf, .fixed c, dst => leaf.publish c dst
  | _, .probe _ c cs, dst => publishAll cs (publish c dst)
  | _, .custom n, dst => Operator.publish n dst
  | _, _, dst => dst

/-- Writes the bindings of several trees over a map, one after the other. -/
def publishAll : {ps : List (Plan κ α)} → Cursors ps → Bindings α → Bindings α
  | _, .nil, dst => dst
  | _, .cons c cs, dst => publishAll cs (publish c dst)

end

/-- How often the rows of the root were released, if the root has rows. -/
def releases? : {p : Plan κ α} → Cursor p → Option Nat
  | _, .fixed c => some c.releases
  | _, _ => none

end QueryPlan.Cursor
