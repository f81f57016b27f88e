import Mathlib.Data.List.Forall2
import QueryPlan.Proofs.Plan.Identities
import QueryPlan.Proofs.Tree.Leaves
import QueryPlan.Proofs.Tree.Sizes
import QueryPlan.Proofs.Tree.Stopping

/-!
# Descriptions over time

What a description shows of a tree is fixed when the tree is built, all but the errors: a request
may stop a node at any depth, and its error is shown from then on, perhaps another one later, but
never none.

* `Description.Ages` — the second description shows what the first does, but for errors that have
  appeared since, node by node.
* `Cursor.errs` — the errors of all nodes; a description has an error exactly if one of them is
  there (`Cursor.hasError_describe`).
* `Cursor.description_ages` — **a description is stable for the life of its tree.**
-/

namespace QueryPlan

/-! ## Descriptions -/

namespace Description

section Induction

variable {P : Description → Prop}

mutual

/-- A statement that goes from the children of a description to the description holds of every
description. -/
theorem induct (node : ∀ uid name domain size error children, (∀ d ∈ children, P d) →
    P (.node uid name domain size error children)) : ∀ d, P d
  | .node uid name domain size error children =>
    node uid name domain size error children (inductAll node children)

/-- The same for all of several descriptions. -/
theorem inductAll (node : ∀ uid name domain size error children, (∀ d ∈ children, P d) →
    P (.node uid name domain size error children)) : ∀ ds : List Description, ∀ d ∈ ds, P d
  | [], _, h => absurd h List.not_mem_nil
  | d :: ds, d', h => by
    rcases List.mem_cons.1 h with h | h
    · rw [h]
      exact induct node d
    · exact inductAll node ds d' h

end

end Induction

/-- Do the two show the same, node by node, but for errors that have appeared since the first? -/
inductive Ages : Description → Description → Prop where
  /-- The nodes have the same identity, label, domain and size, the second has an error if the
  first has, and their children are in the same order. -/
  | node {uid : Uid} {name : String} {domain : Domain} {size : Size}
      {error error' : Option String} {children children' : List Description}
      (herror : error.isSome = true → error'.isSome = true)
      (hchildren : List.Forall₂ Ages children children') :
      Ages (.node uid name domain size error children) (.node uid name domain size error' children')

namespace Ages

theorem refl (d : Description) : d.Ages d := by
  induction d using Description.induct with
  | node uid name domain size error children ih => exact .node id (List.forall₂_same.2 ih)

/-- What is the same in children is the same in lists of them. -/
theorem map_eq {β : Type} {f : Description → β} {ds ds' : List Description}
    (h : List.Forall₂ Ages ds ds') (hf : ∀ d ∈ ds, ∀ d', d.Ages d' → f d = f d') :
    ds.map f = ds'.map f := by
  induction h with
  | nil => rfl
  | cons h _ ih =>
    rw [List.map_cons, List.map_cons, hf _ List.mem_cons_self _ h,
      ih fun d hd => hf d (List.mem_cons_of_mem _ hd)]

/-- Every child has a successor. -/
theorem exists_of_mem {ds ds' : List Description} (h : List.Forall₂ Ages ds ds')
    {d : Description} (hd : d ∈ ds) : ∃ d' ∈ ds', d.Ages d' := by
  induction h with
  | nil => exact absurd hd List.not_mem_nil
  | cons h _ ih =>
    rcases List.mem_cons.1 hd with rfl | hd
    · exact ⟨_, List.mem_cons_self, h⟩
    · obtain ⟨d', hd', hages⟩ := ih hd
      exact ⟨d', List.mem_cons_of_mem _ hd', hages⟩

end Ages

section Equations

variable {uid : Uid} {name : String} {domain : Domain} {size : Size} {error : Option String}
  {children : List Description} {d : Description} {ds : List Description}

theorem nodeCount_node :
    nodeCount (.node uid name domain size error children) = 1 + nodeCounts children := rfl

theorem nodeCounts_cons : nodeCounts (d :: ds) = nodeCount d + nodeCounts ds := rfl

theorem height_node :
    height (.node uid name domain size error children) = 1 + greatestHeight children := rfl

theorem greatestHeight_cons : greatestHeight (d :: ds) = max (height d) (greatestHeight ds) := rfl

theorem hasError_node : hasError (.node uid name domain size error children) =
    (error.isSome || anyHasError children) := rfl

theorem anyHasError_cons : anyHasError (d :: ds) = (hasError d || anyHasError ds) := rfl

end Equations

theorem nodeCounts_eq_foldr (ds : List Description) :
    nodeCounts ds = (ds.map nodeCount).foldr (· + ·) 0 := by
  induction ds with
  | nil => rfl
  | cons d ds ih => rw [List.map_cons, List.foldr_cons, ← ih, nodeCounts_cons]

theorem greatestHeight_eq_foldr (ds : List Description) :
    greatestHeight ds = (ds.map height).foldr max 0 := by
  induction ds with
  | nil => rfl
  | cons d ds ih => rw [List.map_cons, List.foldr_cons, ← ih, greatestHeight_cons]

theorem anyHasError_eq_any (ds : List Description) : anyHasError ds = ds.any hasError := by
  induction ds with
  | nil => rfl
  | cons d ds ih => rw [List.any_cons, ← ih, anyHasError_cons]

namespace Ages

/-- The number of nodes stays the same. -/
theorem nodeCount_eq {d : Description} : ∀ {d'}, d.Ages d' → d.nodeCount = d'.nodeCount := by
  induction d using Description.induct with
  | node uid name domain size error children ih =>
    intro d' h
    cases h with
    | node _ hchildren =>
      rw [nodeCount_node, nodeCount_node, nodeCounts_eq_foldr, nodeCounts_eq_foldr,
        map_eq hchildren fun d hd _ h => ih d hd h]

/-- The height stays the same. -/
theorem height_eq {d : Description} : ∀ {d'}, d.Ages d' → d.height = d'.height := by
  induction d using Description.induct with
  | node uid name domain size error children ih =>
    intro d' h
    cases h with
    | node _ hchildren =>
      rw [height_node, height_node, greatestHeight_eq_foldr, greatestHeight_eq_foldr,
        map_eq hchildren fun d hd _ h => ih d hd h]

/-- Where an error was shown, one is shown. -/
theorem hasError_of {d : Description} :
    ∀ {d'}, d.Ages d' → d.hasError = true → d'.hasError = true := by
  induction d using Description.induct with
  | node uid name domain size error children ih =>
    intro d' h
    cases h with
    | node herror hchildren =>
      rw [hasError_node, hasError_node, Bool.or_eq_true, Bool.or_eq_true, anyHasError_eq_any,
        anyHasError_eq_any, List.any_eq_true, List.any_eq_true]
      refine Or.imp herror ?_
      rintro ⟨d, hd, hshown⟩
      obtain ⟨d', hd', hages⟩ := exists_of_mem hchildren hd
      exact ⟨d', hd', ih d hd hages hshown⟩

end Ages

end Description

/-! ## Trees -/

theorem RowSet.Makes.isSome_err {α : Type} {leaf : RowSet α} {c c' : RowCursor} {q : Request α}
    (h : leaf.Makes c q c') (herr : c.err.isSome = true) : c'.err.isSome = true := by
  cases h with
  | same _ _ => exact herr
  | stopped _ _ => rfl
  | spent _ _ => exact herr
  | onto _ _ => exact herr
  | stoppedPath _ _ => rfl
  | along _ => exact herr
  | stoppedTest _ => rfl
  | tested _ => exact herr
  | rewound => exact herr
  | released _ => exact herr

namespace Cursor

variable {α : Type}

mutual

/-- The errors of all nodes of the tree, each node before its children. -/
def errs : {p : BasicPlan α} → Cursor p → List (Option QueryError)
  | _, c@(.probe _ primary others) => err c :: (errs primary ++ allErrs others)
  | _, c => [err c]

/-- The errors of all nodes of several trees, one tree after the other. -/
def allErrs : {ps : List (BasicPlan α)} → Cursors ps → List (Option QueryError)
  | _, .nil => []
  | _, .cons c cs => errs c ++ allErrs cs

end

section Equations

variable {uid : Uid} {p : BasicPlan α} {os : List (BasicPlan α)} {e : Option QueryError}
  {c : Cursor p} {cs : Cursors os}

theorem errs_probe :
    errs (.probe e c cs : Cursor (.probe uid p os)) = e :: (errs c ++ allErrs cs) := rfl

theorem allErrs_cons : allErrs (.cons c cs : Cursors (p :: os)) = errs c ++ allErrs cs := rfl

variable [Item α]

theorem describe_fixed {leaf : RowSet α} {c : RowCursor} :
    Operator.describe (.fixed c : Cursor (.fixed uid leaf : BasicPlan α)) =
      .node uid (label (.fixed c : Cursor (.fixed uid leaf : BasicPlan α))) (Item.domain α)
        leaf.size (c.err.map QueryError.message) [] := rfl

theorem describe_probe : Operator.describe (.probe e c cs : Cursor (.probe uid p os)) =
    .node uid "Probe" (Item.domain α) (meetSize (size c) (sizes cs)) (e.map QueryError.message)
      (Operator.describe c :: Outline.describeAll (outlines cs)) := by
  rw [← Plan.describeAll_outlines_cons]
  rfl

end Equations

variable [Item α]

/-! ### Errors that are shown -/

/-- **A description has an error exactly if a node of the tree has one.** -/
theorem hasError_describe {p : BasicPlan α} (c : Cursor p) :
    (Operator.describe c).hasError = (errs c).any Option.isSome := by
  induction p, c using induct
    (Q := fun (ps : List (BasicPlan α)) (cs : Cursors ps) =>
      Description.anyHasError (Outline.describeAll (outlines cs)) =
        (allErrs cs).any Option.isSome) with
  | null uid => rfl
  | error uid e => rfl
  | fixed uid leaf c =>
    rw [describe_fixed, Description.hasError_node, Option.isSome_map]
    rfl
  | probe uid p os e c cs ih ihcs =>
    rw [describe_probe, Description.hasError_node, Option.isSome_map,
      Description.anyHasError_cons, ih, ihcs, errs_probe, List.any_cons, List.any_append]
  | nil => rfl
  | cons p ps c cs ih ihcs =>
    rw [Plan.describeAll_outlines_cons, Description.anyHasError_cons, allErrs_cons,
      List.any_append, ih, ihcs]

/-! ### What requests leave of a description -/

theorem forall₂_ages_touched {q : Request α} {ps : List (BasicPlan α)}
    (hps : ∀ p ∈ ps, ∀ (c : Cursor p) {d : Description}, d.Ages (Operator.describe c) →
      d.Ages (Operator.describe (q.after c))) :
    ∀ {cs cs' : Cursors ps}, Touched q cs cs' → ∀ {ds},
      List.Forall₂ Description.Ages ds (Outline.describeAll (outlines cs)) →
      List.Forall₂ Description.Ages ds (Outline.describeAll (outlines cs')) := by
  induction ps with
  | nil =>
    intro cs cs' htouched ds h
    cases htouched
    exact h
  | cons p ps ih =>
    intro cs cs' htouched ds h
    cases htouched with
    | none _ => exact h
    | cons c htouched =>
      rw [Plan.describeAll_outlines_cons] at h ⊢
      cases h with
      | cons h hs =>
        exact .cons (hps p List.mem_cons_self c h)
          (ih (fun q hq => hps q (List.mem_cons_of_mem _ hq)) htouched hs)

/-- **A request leaves a description as it is**, but for errors that appear. -/
theorem ages_after {p : BasicPlan α} : ∀ (q : Request α) (c : Cursor p) {d : Description},
    d.Ages (Operator.describe c) → d.Ages (Operator.describe (q.after c)) := by
  induction p using BasicPlan.induct with
  | null uid =>
    intro q c d h
    cases c
    cases q <;> exact h
  | error uid e =>
    intro q c d h
    cases c
    cases q <;> exact h
  | fixed uid leaf =>
    intro q c d h
    cases c with
    | fixed c =>
      rw [describe_fixed] at h
      rw [after_fixed_eq, describe_fixed]
      cases h with
      | node herror hchildren =>
        rw [Option.isSome_map] at herror
        refine .node (fun hshown => ?_) hchildren
        rw [Option.isSome_map]
        exact (leaf.makes_after q c).isSome_err (herror hshown)
  | probe uid p os ih ihos =>
    intro q c d h
    cases c with
    | probe e c cs =>
      rw [describe_probe] at h
      cases h with
      | @node _ _ _ _ error _ ds _ herror hchildren =>
        rw [Option.isSome_map] at herror
        cases hchildren with
        | @cons d _ ds _ hc hcs =>
          obtain ⟨e', c', cs', hafter, hc', hcs', hkept⟩ := after_probe_keeps uid (q := q)
            (P := fun c => d.Ages (Operator.describe c))
            (Q := fun cs => List.Forall₂ Description.Ages ds (Outline.describeAll (outlines cs)))
            (fun q' _ c hc => ih q' c hc)
            (fun q' _ _ cs cs' htouched hcs => forall₂_ages_touched
              (fun o ho c _ hc => ihos o ho q' c hc) htouched hcs) e hc hcs
          have hsize : meetSize (size c) (sizes cs) = meetSize (size c') (sizes cs') :=
            size_eq (.probe e c cs : Cursor (.probe uid p os)) (.probe e' c' cs')
          rw [hafter, describe_probe, hsize]
          refine .node (fun hshown => ?_) (.cons hc' hcs')
          rw [Option.isSome_map, hkept (herror hshown)]
          exact herror hshown

/-- **A description is stable for the life of its tree.**  Wherever the cursors of a tree stand and
whatever is asked of it from then on, under whatever contexts and with whatever runs, its
description stays the same node by node, but for errors that appear: identities, labels, domains,
sizes and children, and so the number of nodes and the height.  No error ever goes, and at any time
the description has an error exactly if a node of the tree has one. -/
theorem description_ages (p : BasicPlan α) {c c' : Cursor p}
    (h : Operator.Leads (fun _ : Request α => True) c c') :
    (Operator.describe c).Ages (Operator.describe c') ∧
    (Operator.describe c).nodeCount = (Operator.describe c').nodeCount ∧
    (Operator.describe c).height = (Operator.describe c').height ∧
    ((Operator.describe c).hasError = true → (Operator.describe c').hasError = true) ∧
    ((Operator.describe c').hasError = true ↔ ∃ e ∈ c'.errs, e.isSome = true) := by
  have hages : (Operator.describe c).Ages (Operator.describe c') :=
    h.invariant (P := fun c' => (Operator.describe c).Ages (Operator.describe c'))
      (fun q _ c' hc => ages_after q c' hc) (.refl _)
  refine ⟨hages, hages.nodeCount_eq, hages.height_eq, hages.hasError_of, ?_⟩
  rw [hasError_describe, List.any_eq_true]

/-- An intersection on its only result, after a test that its first child did not survive. -/
def brokenBelow : Cursor oneShared := Request.after (.contains .expired ⟨[1]⟩) onShared

theorem description_ages_brokenBelow :
    Operator.Leads (fun _ : Request Ref => True) onShared brokenBelow ∧
    (Operator.describe onShared).Ages (Operator.describe brokenBelow) ∧
    (Operator.describe brokenBelow).nodeCount = 3 ∧
    Operator.err brokenBelow = none ∧ (Operator.describe onShared).hasError = false ∧
    (Operator.describe brokenBelow).hasError = true := by
  have hleads : Operator.Leads (fun _ : Request Ref => True) onShared brokenBelow :=
    .request _ .refl trivial
  obtain ⟨hages, hcount, -, -, hshown⟩ := description_ages oneShared hleads
  have hbelow : some .deadlineExceeded ∈ brokenBelow.errs := by decide
  exact ⟨hleads, hages, hcount.symm, rfl, by decide, hshown.2 ⟨_, hbelow, rfl⟩⟩

end Cursor

end QueryPlan
