import QueryPlan.Proofs.Tree.Flavours
import QueryPlan.Proofs.Tree.Leaves
import QueryPlan.Proofs.Tree.Places
import QueryPlan.Proofs.Tree.Publishing

/-!
# The bindings that a run hands on

A run that hands on bindings has the tree publish over an empty map at every stop.  The leaves
beside the chain of first children are only ever tested, so they stand on no row and publish the
same all the time; and what the leaf at the tip publishes depends on its row and way alone.

* `Cursor.Aside` — the invariant of the leaves beside the chain, kept by every request.
* `Cursor.standing` — the newly built tree with its tip at a given place; at every stop of a run
  the tree publishes what this one does (`Cursor.publish_standing`).
* `Cursor.unrolls_bindings` — so the bindings at the places to come are the account of the run.
* `Run.tags_along_places` — **a run with paths hands on the bindings of every place once.**
-/

namespace QueryPlan

variable {α : Type}

/-! ## Leaves -/

/-- Does the cursor stand on no row? -/
def RowCursor.Parked (c : RowCursor) : Prop := c.current = none

theorem RowCursor.parked_start : RowCursor.start.Parked := rfl

/-- Only a step takes a leaf onto a row. -/
theorem RowCursor.Parked.of_makes {leaf : RowSet α} {q : Request α} {c c' : RowCursor}
    (h : c.Parked) (hmakes : leaf.Makes c q c') (hq : ∀ s, q ≠ .next s) : c'.Parked := by
  cases hmakes with
  | onto _ _ => exact absurd rfl (hq _)
  | along hr =>
    rw [show c.current = none from h] at hr
    cases hr
  | same _ _ => exact h
  | stopped _ _ => rfl
  | spent _ _ => rfl
  | stoppedPath _ _ => rfl
  | stoppedTest _ => rfl
  | tested _ => exact h
  | rewound => rfl
  | released _ => exact h

/-- What a leaf publishes depends on its row, and on its way if there is a row. -/
theorem RowSet.publish_congr (leaf : RowSet α) {c c' : RowCursor}
    (hcurrent : c.current = c'.current) (hpath : c.current.isSome = true → c.path = c'.path)
    (dst : Bindings α) : leaf.publish c dst = leaf.publish c' dst := by
  have hrow : leaf.currentRow c = leaf.currentRow c' := by
    rw [currentRow, currentRow, hcurrent]
  have hresult : leaf.result c = leaf.result c' := by rw [result, result, hrow]
  have hwitness : leaf.witness c = leaf.witness c' := by
    cases hr : leaf.currentRow c' with
    | none => rw [witness, witness, hrow, hr, Option.bind_none, Option.bind_none]
    | some row => rw [witness, witness, hrow, hpath (Cursor.isSome_current (hrow.trans hr))]
  rw [publish, publish, hresult, hwitness]

namespace Cursor

/-! ## Leaves beside the chain -/

theorem publishAll_parked {ps : List (BasicPlan α)}
    (hps : ∀ p ∈ ps, ∀ c : Cursor p, Everywhere (fun _ c => c.Parked) (leaves c) → ∀ dst,
      publish c dst = publish (start p) dst) :
    ∀ cs : Cursors ps, Everywhere (fun _ c => c.Parked) (allLeaves cs) → ∀ dst,
      publishAll cs dst = publishAll (startAll ps) dst := by
  induction ps with
  | nil =>
    intro cs _ dst
    cases cs
    rfl
  | cons p ps ih =>
    intro cs h dst
    cases cs with
    | cons c cs =>
      obtain ⟨hc, hcs⟩ := everywhere_append.1 h
      rw [publishAll_cons, startAll_cons, publishAll_cons, hps p List.mem_cons_self c hc,
        ih (fun q hq => hps q (List.mem_cons_of_mem _ hq)) cs hcs]

/-- A tree none of whose leaves stands on a row publishes what it does when it is new. -/
theorem publish_parked {p : BasicPlan α} : ∀ c : Cursor p,
    Everywhere (fun _ c => c.Parked) (leaves c) → ∀ dst,
      publish c dst = publish (start p) dst := by
  induction p using BasicPlan.induct with
  | null uid =>
    intro c _ dst
    cases c
    rfl
  | error uid e =>
    intro c _ dst
    cases c
    rfl
  | fixed uid leaf =>
    intro c h dst
    cases c with
    | fixed c =>
      have hparked : c.current = none := everywhere_fixed.1 h
      refine leaf.publish_congr hparked (fun hsome => ?_) dst
      rw [hparked] at hsome
      cases hsome
  | probe uid p os ih ihos =>
    intro c h dst
    cases c with
    | probe e c cs =>
      obtain ⟨hc, hcs⟩ := everywhere_append.1 h
      rw [publish_probe, start_probe, publish_probe, ih c hc, publishAll_parked ihos cs hcs]

/-- Do all leaves beside the chain of first children stand on no row? -/
def Aside : {p : BasicPlan α} → Cursor p → Prop
  | .probe _ _ _, .probe _ c cs => Aside c ∧ Everywhere (fun _ c => c.Parked) (allLeaves cs)
  | .null _, _ | .error _ _, _ | .fixed _ _, _ => True

theorem aside_start (p : BasicPlan α) : Aside (start p) := by
  induction p using BasicPlan.induct with
  | null uid => trivial
  | error uid e => trivial
  | fixed uid leaf => trivial
  | probe uid p os ih _ =>
    exact ⟨ih, everywhere_startAll fun o _ => everywhere_start (fun _ => RowCursor.parked_start) o⟩

/-- Only a step takes leaves of a tree onto rows. -/
theorem parked_after [Item α] {p : BasicPlan α} {q : Request α} (hq : ∀ s, q ≠ .next s)
    {c : Cursor p} (h : Everywhere (fun _ c => c.Parked) (leaves c)) :
    Everywhere (fun _ c => c.Parked) (leaves (q.after c)) := by
  refine everywhere_after (fun q' hq' leaf c hparked => ?_) h
  rw [hq'.eq hq]
  exact hparked.of_makes (leaf.makes_after q c) hq

/-- **No request takes a leaf beside the chain onto a row.** -/
theorem aside_after [Item α] {p : BasicPlan α} : ∀ (q : Request α) {c : Cursor p}, Aside c →
    Aside (q.after c) := by
  induction p using BasicPlan.induct with
  | null uid =>
    intro q c _
    cases c
    cases q <;> trivial
  | error uid e =>
    intro q c _
    cases c
    cases q <;> trivial
  | fixed uid leaf =>
    intro q c _
    cases c with
    | fixed c =>
      rw [after_fixed_eq]
      trivial
  | probe uid p os ih _ =>
    intro q c h
    cases c with
    | probe e c cs =>
      obtain ⟨e', c', cs', hafter, hc', hcs', -⟩ := after_probe_keeps uid (q := q) (P := Aside)
        (Q := fun cs => Everywhere (fun _ c => c.Parked) (allLeaves cs))
        (fun q' _ c hc => ih q' hc)
        (fun q' _ hnext cs cs' htouched hcs => everywhere_touched
          (fun o _ c hc => parked_after hnext hc) htouched hcs) e h.1 h.2
      rw [hafter]
      exact ⟨hc', hcs'⟩

/-! ## Trees at a place -/

/-- The cursor on the row and the way of these numbers, as far as that is what counts. -/
def placed (i j : Nat) : RowCursor := { RowCursor.start with current := some i, path := j }

/-- The newly built tree, but with its tip at a place. -/
def standing : (p : BasicPlan α) → Nat → Nat → Cursor p
  | .null _, _, _ => .null
  | .error _ _, _, _ => .error
  | .fixed _ _, i, j => .fixed (placed i j)
  | .probe _ p os, i, j => .probe none (standing p i j) (startAll os)

/-- **What a tree publishes depends on the place of its tip alone**, if the tip stands on a row and
no leaf beside the chain does. -/
theorem publish_standing {p : BasicPlan α} : ∀ {c : Cursor p}, Aside c → ∀ {i},
    (tip c).current = some i → ∀ dst, publish c dst = publish (standing p i (tip c).path) dst := by
  induction p using BasicPlan.induct with
  | null uid =>
    intro c _ i hi
    cases c
    cases hi
  | error uid e =>
    intro c _ i hi
    cases c
    cases hi
  | fixed uid leaf =>
    intro c _ i hi dst
    cases c with
    | fixed c =>
      have hcurrent : c.current = (placed i c.path).current := hi
      exact leaf.publish_congr hcurrent (fun _ => rfl) dst
  | probe uid p os ih _ =>
    intro c h i hi dst
    cases c with
    | probe e c cs =>
      obtain ⟨hc, hcs⟩ := h
      show publishAll cs (publish c dst) =
        publishAll (startAll os) (publish (standing p i (tip c).path) dst)
      rw [ih hc hi, publishAll_parked (fun _ _ c hc => publish_parked c hc) cs hcs]

end Cursor

/-- What the other children along the chain bind a name to while they stand on no row: those of an
outer intersection rather than those of an inner, and a later child rather than an earlier. -/
def Plan.beside : BasicPlan α → String → Option α
  | .probe _ p os, k => (Cursor.boundAll (Cursor.startAll os) k).or (beside p k)
  | .null _, _ | .error _ _, _ | .fixed _ _, _ => none

namespace Cursor

/-- **What is bound at a place**: what the children beside the chain bind, else the witness under
its name if the row has one of that number, else what the tags of the leaf bind at the row. -/
theorem bound_standing {p : BasicPlan α} {leaf : RowSet α} (hleaf : p.tip? = some leaf) {i : Nat}
    {row : Row α} (hrow : leaf.rows[i]? = some row) (j : Nat) (k : String) :
    bound (standing p i j) k = (p.beside k).or
      ((if leaf.witnessTag = some k then row.witnesses[j]? else none).or
        (leaf.tags.bound (some row.value) k)) := by
  induction p using BasicPlan.induct with
  | null uid => cases hleaf
  | error uid e => cases hleaf
  | fixed uid leaf' =>
    cases hleaf
    have hcurrent : leaf.currentRow (placed i j) = some row := hrow
    show leaf.bound (placed i j) k = (none : Option α).or _
    rw [Option.none_or, RowSet.bound, RowSet.witness, RowSet.result, hcurrent]
    rfl
  | probe uid p os ih _ =>
    show (boundAll (startAll os) k).or (bound (standing p i j) k) =
      ((boundAll (startAll os) k).or (p.beside k)).or _
    rw [ih hleaf, Option.or_assoc]

/-! ## Runs -/

variable [Item α] {p : BasicPlan α}

theorem aside_move (phase : Phase) {s : Signal} {yes : Bool} {c c' : Cursor p} (h : Aside c)
    (hm : Operator.move phase s c = (yes, c')) : Aside c' := by
  have hmoved : Aside (Operator.move phase s c).2 := by
    cases phase with
    | results => exact aside_after (.next s) h
    | paths => exact aside_after (.nextPath s) h
  rwa [hm] at hmoved

/-- The bindings at a place. -/
def bindingsAt (p : BasicPlan α) (place : Nat × Nat) : Bindings α :=
  Operator.publish (standing p place.1 place.2) .empty

theorem publish_at {c : Cursor p} (h : Aside c) {i : Nat} (hi : (tip c).current = some i) :
    Operator.publish c .empty = bindingsAt p (i, (tip c).path) := publish_standing h hi .empty

/-- **The bindings at the places to come are what is to come of a tree.** -/
theorem unrolls_bindings : Operator.Unrolls true (fun c : Cursor p => Healthy c ∧ Aside c)
    (fun c => Operator.publish c .empty)
    (fun phase c => (placesToCome phase c).map (bindingsAt p)) where
  next_moved h hm := by
    obtain ⟨hhealthy, haside⟩ := h
    have haside' := aside_move .results haside hm
    obtain ⟨i, hi, hcome⟩ := placesToCome_next hhealthy hm
    refine ⟨⟨(next_moved hhealthy hm true).1, haside'⟩, ?_⟩
    rw [hcome, publish_at haside' hi, phaseOf_true, List.map_cons]
  next_over h hm := by rw [placesToCome_over h.1 hm, List.map_nil]
  nextPath_moved h hm := by
    obtain ⟨hhealthy, haside⟩ := h
    have haside' := aside_move .paths haside hm
    obtain ⟨i, hi, hcome⟩ := placesToCome_nextPath hhealthy hm
    refine ⟨⟨(nextPath_moved hhealthy hm true).1, haside'⟩, ?_⟩
    rw [hcome, publish_at haside' hi, List.map_cons]
  nextPath_over h hm := by
    obtain ⟨hhealthy, haside⟩ := h
    refine ⟨⟨(nextPath_over hhealthy hm true).1, aside_move .paths haside hm⟩, ?_⟩
    rw [placesToCome_back hhealthy hm]

end Cursor

namespace Run

variable {ω : Type} [Item α] {p : BasicPlan α}

/-- What a run with paths notes down that notes the bindings it is handed. -/
theorem noted_along_places {r : Run ω} {f : Bindings α → ω → ω} {w : ω}
    (hlimit : r.options.limit = none) (hpaths : r.options.paths = true)
    (hclear : (r.loop (onTags f)).Unfired (.start (Cursor.start p) w)) {turns : Nat}
    {rep : Report (Recorded (Cursor p)) ((ω × List (Bindings α)) × List (Recorded (Cursor p))) Nat}
    (hrep : (r.gathering (List (Bindings α))).observed (onTags (noting f)) turns (Cursor.start p)
      (w, []) = some rep) :
    rep.world.1.2 = p.places.map (Cursor.bindingsAt p) := by
  have hstep (c : Cursor p) (w : ω × List (Bindings α)) :
      (onTags (noting f) c w).2 = w.2 ++ [Operator.publish c .empty] := rfl
  have hnoted : rep.world.1.2 = rep.world.2.map fun n => Operator.publish n.node .empty := by
    rw [gathered_eq_flatMap hstep hrep, List.nil_append, List.map_eq_flatMap]
  have hclear' : ((r.gathering (List (Bindings α))).watched (onTags (noting f))).Unfired
      (watchedStart (Cursor.start p) (w, [])) :=
    (watches _ _).unfired ((watches_noting r (fst_onTags_noting f)).unfired hclear)
  have hunrolls : Operator.Unrolls (r.gathering (List (Bindings α))).options.paths _ _ _ :=
    (show r.options.paths = true from hpaths) ▸ Cursor.unrolls_bindings (p := p)
  obtain ⟨e, he, -, -, hworld, -⟩ := of_observed_eq_some hrep
  have hvisits := hunrolls.visits_of_haltFrom?
    ⟨Cursor.healthy_start p, Cursor.aside_start p⟩ hclear' he
  have hcut := RunOptions.cut_of_limit_eq_none hlimit (p.places.map (Cursor.bindingsAt p))
  rw [hnoted, hworld, hvisits, Cursor.placesToCome_start]
  exact hcut

/-- **A run with paths hands on the bindings of every place once.**  Let a run over a newly built
tree be told to visit every way of reaching a result, without a limit and under a context that does
not fire.  Then it ends, and what it hands to its function, call by call, are the bindings at the
places of the tree: what the tree writes over an empty map while the leaf at the tip of the chain of
first children is at that row and way and no other leaf stands on a row.  The places come in
lexicographic order, and they are the rows that every other child along the chain has, with a way
for each witness and one if there is none.  What is bound at a place is what the other children
bind, a later one rather than an earlier, else under its name the witness of that way if the row has
it, else what the tags of the leaf bind at the row. -/
theorem tags_along_places (r : Run ω) (p : BasicPlan α) (f : Bindings α → ω → ω) (w : ω)
    (hlimit : r.options.limit = none) (hpaths : r.options.paths = true)
    (hclear : (r.loop (onTags f)).Unfired (.start (Cursor.start p) w)) {turns : Nat}
    (hturns : turnsFor (Cursor.start p) ≤ turns) :
    (∃ rep, (r.gathering (List (Bindings α))).eachTagged (noting f) turns (Cursor.start p) (w, []) =
        some rep ∧
      r.eachTagged f turns (Cursor.start p) w = some (rep.map id Prod.fst) ∧
      rep.world.2 = p.places.map (Cursor.bindingsAt p)) ∧
    p.places.Pairwise (Prod.Lex (· < ·) (· < ·)) ∧
    (∀ i j, (i, j) ∈ p.places ↔ ∃ row, p.tipRows[i]? = some row ∧ p.admits row = true ∧
      j < max 1 row.witnesses.length) ∧
    ∀ leaf, p.tip? = some leaf → ∀ i row, leaf.rows[i]? = some row → ∀ j k,
      (Cursor.bindingsAt p (i, j)).get? k = (p.beside k).or
        ((if leaf.witnessTag = some k then row.witnesses[j]? else none).or
          (leaf.tags.bound (some row.value) k)) := by
  refine ⟨?_, p.pairwise_places, fun i j => Plan.mem_places, fun leaf hleaf i row hrow j k => ?_⟩
  · obtain ⟨h, hh⟩ := exists_halt_watched (still r.options .clear)
      (fun (_ : Cursor p) w => w) (Cursor.start p) () hturns
    obtain ⟨rep, hrep, hvisiting, -⟩ :=
      exists_noted (fst_onTags_noting f) (Loop.unfired_iff_shows.1 hclear) hh
    refine ⟨_, by rw [eachTagged, visiting_of_observed hrep]; rfl,
      by rw [eachTagged, hvisiting]; rfl, ?_⟩
    exact noted_along_places hlimit hpaths hclear hrep
  · show (Cursor.publish (Cursor.standing p i j) .empty).get? k = _
    rw [Cursor.get?_publish, Cursor.bound_standing hleaf hrow]
    exact Option.or_none

/-- Three rows, of which another leaf lacks the last; that leaf has one name for a fixed binding and
another for its result. -/
def taggedRows : BasicPlan Ref :=
  .probe ⟨2⟩
    (.fixed ⟨0⟩ ⟨[⟨⟨[1]⟩, []⟩, ⟨⟨[2]⟩, [⟨[7]⟩, ⟨[8]⟩]⟩, ⟨⟨[3]⟩, [⟨[9]⟩]⟩], ⟨["x"], .empty⟩,
      some "via"⟩)
    [.fixed ⟨1⟩ ⟨[⟨⟨[1]⟩, []⟩, ⟨⟨[2]⟩, []⟩], ⟨["y"], ⟨[("k", ⟨[5]⟩)]⟩⟩, none⟩]

theorem tags_along_places_taggedRows :
    turnsFor (Cursor.start taggedRows) ≤ 9 ∧
    taggedRows.places = [(0, 0), (1, 0), (1, 1)] ∧
    (∃ rep, ((Run.mk ⟨none, true⟩ fun w : Unit => (.clear, w)).gathering
          (List (Bindings Ref))).eachTagged (noting fun _ w => w) 9 (Cursor.start taggedRows)
          ((), []) = some rep ∧
      rep.world.2 = [⟨[("x", ⟨[1]⟩), ("k", ⟨[5]⟩)]⟩,
        ⟨[("x", ⟨[2]⟩), ("via", ⟨[7]⟩), ("k", ⟨[5]⟩)]⟩,
        ⟨[("x", ⟨[2]⟩), ("via", ⟨[8]⟩), ("k", ⟨[5]⟩)]⟩]) ∧
    (Cursor.bindingsAt taggedRows (1, 1)).get? "via" = some ⟨[8]⟩ := by
  have hturns : turnsFor (Cursor.start taggedRows) ≤ 9 := by decide
  have hplaces : taggedRows.places = [(0, 0), (1, 0), (1, 1)] := by decide
  obtain ⟨⟨rep, hrep, -, hbindings⟩, -, -, hbound⟩ :=
    tags_along_places (Run.mk ⟨none, true⟩ fun w : Unit => (.clear, w)) taggedRows (fun _ w => w) ()
      rfl rfl (Loop.unfired_of_look (fun _ => rfl) _) hturns
  rw [hplaces] at hbindings
  exact ⟨hturns, hplaces, ⟨rep, hrep, hbindings⟩, hbound _ rfl 1 _ rfl 1 "via"⟩

end Run

end QueryPlan
