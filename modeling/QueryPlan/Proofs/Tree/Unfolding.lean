import QueryPlan.Plan.Tree.Moves

/-!
# Cursors, node by node

What the views and the moves of a tree's cursor come to at each kind of node, as equations
that hold by definition.  Statements about trees are proved with these equations, one for
each case of an induction over the plan, or over the cursor together with those of several
trees (`Cursor.induct`).
-/

namespace QueryPlan.Cursor

/-! ## Induction over cursors -/

section Induction

variable {α : Type} {P : (p : BasicPlan α) → Cursor p → Prop}
  {Q : (ps : List (BasicPlan α)) → Cursors ps → Prop}

mutual

/-- Two statements, one about a tree's cursor and one about the cursors of several trees, that go
from the children of a node to the node and from trees to lists of them hold of all cursors. -/
theorem induct (null : ∀ uid, P (.null uid) .null) (error : ∀ uid e, P (.error uid e) .error)
    (fixed : ∀ uid leaf c, P (.fixed uid leaf) (.fixed c))
    (probe : ∀ uid p os e c cs, P p c → Q os cs → P (.probe uid p os) (.probe e c cs))
    (nil : Q [] .nil) (cons : ∀ p ps c cs, P p c → Q ps cs → Q (p :: ps) (.cons c cs)) :
    ∀ p c, P p c
  | .null uid, .null => null uid
  | .error uid e, .error => error uid e
  | .fixed uid leaf, .fixed c => fixed uid leaf c
  | .probe uid p os, .probe e c cs => probe uid p os e c cs
      (induct null error fixed probe nil cons p c) (inductAll null error fixed probe nil cons os cs)

/-- The second of them, for several trees. -/
theorem inductAll (null : ∀ uid, P (.null uid) .null) (error : ∀ uid e, P (.error uid e) .error)
    (fixed : ∀ uid leaf c, P (.fixed uid leaf) (.fixed c))
    (probe : ∀ uid p os e c cs, P p c → Q os cs → P (.probe uid p os) (.probe e c cs))
    (nil : Q [] .nil) (cons : ∀ p ps c cs, P p c → Q ps cs → Q (p :: ps) (.cons c cs)) :
    ∀ ps cs, Q ps cs
  | [], .nil => nil
  | p :: ps, .cons c cs => cons p ps c cs (induct null error fixed probe nil cons p c)
      (inductAll null error fixed probe nil cons ps cs)

end

end Induction

variable {κ α : Type} {uid : Uid} {p : Plan κ α} {os : List (Plan κ α)}
  {e : Option QueryError} {c : Cursor p} {cs : Cursors os}

/-! ## Newly built trees -/

theorem start_probe : start (.probe uid p os) = .probe none (start p) (startAll os) := rfl

theorem startAll_cons : startAll (p :: os) = .cons (start p) (startAll os) := rfl

variable [Operator κ α]

/-! ## Views and paths -/

@[simp] theorem firstErr_cons :
    firstErr (.cons c cs : Cursors (p :: os)) = (err c).orElse fun _ => firstErr cs := rfl

@[simp] theorem result_fixed {leaf : RowSet α} {c : RowCursor} :
    result (.fixed c : Cursor (.fixed uid leaf : Plan κ α)) = leaf.result c := rfl

@[simp] theorem pending_probe :
    pending (.probe e c cs : Cursor (.probe uid p os)) = pending c := rfl

theorem stats_probe : stats (.probe e c cs : Cursor (.probe uid p os)) =
    { Stats.unknown with
      containsCost := (stats c).containsCost + probeCost cs
      nextCost := (stats c).nextCost + probeCost cs
      size := meetSize (size c) (sizes cs) } := rfl

theorem nextPath_fixed {leaf : RowSet α} {c : RowCursor} (s : Signal) :
    nextPath s (.fixed c : Cursor (.fixed uid leaf : Plan κ α)) =
      ((leaf.nextPath s c).1, .fixed (leaf.nextPath s c).2) := rfl

theorem nextPath_probe (s : Signal) :
    nextPath s (.probe e c cs : Cursor (.probe uid p os)) =
      ((nextPath s c).1, .probe e (nextPath s c).2 cs) := rfl

variable [Item α]

/-! ## Outlines -/

theorem outline_probe : outline (.probe e c cs : Cursor (.probe uid p os)) =
    .node (info (.probe e c cs : Cursor (.probe uid p os))) (outline c :: outlines cs) := rfl

theorem outlines_cons :
    outlines (.cons c cs : Cursors (p :: os)) = outline c :: outlines cs := rfl

/-! ## Testing members -/

theorem contains_fixed {leaf : RowSet α} {c : RowCursor} (s : Signal) (x : α) :
    contains s x (.fixed c : Cursor (.fixed uid leaf : Plan κ α)) =
      ((leaf.contains s x c).1, .fixed (leaf.contains s x c).2) := rfl

theorem contains_probe (s : Signal) (x : α) :
    contains s x (.probe e c cs : Cursor (.probe uid p os)) =
      match contains s x c with
      | (false, c) => (false, .probe e c cs)
      | (true, c) => ((containsAll s x cs).1, .probe e c (containsAll s x cs).2) := rfl

theorem containsAll_cons (s : Signal) (x : α) :
    containsAll s x (.cons c cs : Cursors (p :: os)) =
      match contains s x c with
      | (false, c) => (false, .cons c cs)
      | (true, c) => ((containsAll s x cs).1, .cons c (containsAll s x cs).2) := rfl

/-! ## Moving to the next result -/

theorem search_succ (step : Cursor p → Bool × Cursor p) (s : Signal) (rounds : Nat)
    (c : Cursor p) (cs : Cursors os) :
    search step s (rounds + 1) c cs =
      match step c with
      | (false, c) => some (false, (err c).orElse fun _ => firstErr cs, c, cs)
      | (true, c) =>
        match result c with
        | none => search step s rounds c cs
        | some x =>
          match containsAll s x cs with
          | (true, cs) => some (true, none, c, cs)
          | (false, cs) =>
            match firstErr cs with
            | some e => some (false, some e, c, cs)
            | none => search step s rounds c cs := rfl

theorem next_fixed {leaf : RowSet α} {c : RowCursor} (s : Signal) :
    next s (.fixed c : Cursor (.fixed uid leaf : Plan κ α)) =
      ((leaf.next s c).1, .fixed (leaf.next s c).2) := rfl

/-- An intersection that an error stopped stays where it is. -/
theorem next_probe_some (e : QueryError) (s : Signal) :
    next s (.probe (some e) c cs : Cursor (.probe uid p os)) = (false, .probe (some e) c cs) := rfl

/-- Under a context that shows nothing, an intersection searches. -/
theorem next_probe_clear : next .clear (.probe none c cs : Cursor (.probe uid p os)) =
    match search (next .clear) .clear ((pending c).length + 1) c cs with
    | some (yes, e, c, cs) => (yes, .probe e c cs)
    | none => (false, .probe none c cs) := rfl

end QueryPlan.Cursor
