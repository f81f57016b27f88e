import QueryPlan.Proofs.Tree.Chain

/-!
# Asking at the end

A root at its end has no result for a further step.  This file says what such a step does all
the same, and whether there are still ways of reaching the result that was the last one.

* `Cursor.Unmoved` — a root that shows the same as before, its state and its error apart; a
  step at the end leaves it so.
* `Cursor.brought` — the error that such a step brings out: an intersection that has run out
  looks at its context again, and asks its children again.
* `Cursor.steps_after_end` — **steps at the end** change nothing but the error of an
  intersection without one, and `Cursor.step_after_end_brings_error` shows that they do.
* `Cursor.paths_after_end` — **path steps at the end** find nothing exactly if no way is left,
  which an intersection that was stopped on a result may still have
  (`Cursor.path_after_end`).
-/

namespace QueryPlan.Cursor

variable {α : Type} [Item α] {p : BasicPlan α}

/-! ## Steps at the end -/

/-- Does the root show the same in both, its state and its error apart? -/
structure Unmoved (c c' : Cursor p) : Prop where
  /-- It stands on the same result. -/
  result : result c' = result c
  /-- It has the same size. -/
  size : size c' = size c
  /-- It has counted the same and costs the same. -/
  stats : stats c' = stats c
  /-- It publishes the same bindings. -/
  publish : ∀ dst, publish c' dst = publish c dst
  /-- It has as many ways left of reaching its result. -/
  ways : waysLeft c' = waysLeft c

namespace Unmoved

omit [Item α] in
theorem refl (c : Cursor p) : Unmoved c c := ⟨rfl, rfl, rfl, fun _ => rfl, rfl⟩

omit [Item α] in
theorem trans {c c' c'' : Cursor p} (h : Unmoved c c') (h' : Unmoved c' c'') : Unmoved c c'' where
  result := h'.result.trans h.result
  size := h'.size.trans h.size
  stats := h'.stats.trans h.stats
  publish dst := (h'.publish dst).trans (h.publish dst)
  ways := h'.ways.trans h.ways

omit [Item α] in
/-- An intersection shows what its children show. -/
theorem probe {uid : Uid} {os : List (BasicPlan α)} {c c' : Cursor p} (h : Unmoved c c')
    (e e' : Option QueryError) (cs : Cursors os) :
    Unmoved (.probe e c cs : Cursor (.probe uid p os)) (.probe e' c' cs) where
  result := h.result
  size := by
    show meetSize (Cursor.size c') (sizes cs) = meetSize (Cursor.size c) (sizes cs)
    rw [h.size]
  stats := by
    rw [stats_probe, stats_probe, h.stats, h.size]
  publish dst := by
    show publishAll cs (Cursor.publish c' dst) = publishAll cs (Cursor.publish c dst)
    rw [h.publish]
  ways := h.ways

end Unmoved

/-- An intersection that has run out asks its first child once more, and takes over an error
that one of its children has. -/
theorem next_probe_of_over {uid : Uid} {os : List (BasicPlan α)} {c : Cursor p} (h : Over c)
    (cs : Cursors os) :
    next .clear (.probe none c cs : Cursor (.probe uid p os)) =
      (false, .probe ((err (next .clear c).2).or (firstErr cs)) (next .clear c).2 cs) := by
  have hno := next_of_over .clear h
  rw [next_probe_clear, search_succ]
  rcases hc : next .clear c with ⟨yes, c'⟩
  rw [hc] at hno
  obtain rfl : yes = false := hno
  simp only [Option.orElse_eq_or]

/-- A leaf at its end stays as it is. -/
theorem next_fixed_of_over {uid : Uid} {leaf : RowSet α} {c : Cursor (.fixed uid leaf)}
    (h : Over c) (s : Signal) : (next s c).2 = c := by
  cases c with
  | fixed c =>
    have ht : c.progress.state.isTerminal = true := h
    rw [next_fixed, RowSet.next, if_pos ht]

/-- **A step at the end moves nothing.** -/
theorem unmoved_next (s : Signal) : ∀ {c : Cursor p}, Over c → Unmoved c (next s c).2 := by
  induction p using BasicPlan.induct generalizing s with
  | null uid => exact fun _ => .refl _
  | error uid e => exact fun _ => .refl _
  | fixed uid leaf =>
    intro c hover
    rw [next_fixed_of_over hover]
    exact .refl c
  | probe uid p os ih _ =>
    intro c hover
    cases c with
    | probe e c cs =>
      cases e with
      | some e => exact .refl _
      | none =>
        have hc : Over c := hover.resolve_left (by decide)
        rcases s.eq_clear_or_error? with rfl | ⟨e, he⟩
        · rw [next_probe_of_over hc]
          exact (ih .clear hc).probe _ _ cs
        · rw [next_probe_fired he]
          exact (Unmoved.refl c).probe _ _ cs

/-! ## What comes out at the end -/

/-- The error that a step under a context with this signal brings out at a root that is at its
end without one.  A leaf brings none out.  An intersection looks at its context and, if that
shows nothing, at its children, the first of which may bring one out itself. -/
def brought (s : Signal) : {p : BasicPlan α} → Cursor p → Option QueryError
  | .probe _ _ _, .probe _ c cs =>
    s.error?.or (((err c).or (brought .clear c)).or (firstErr cs))
  | _, _ => none

omit [Item α] in
theorem brought_probe {uid : Uid} {os : List (BasicPlan α)} (s : Signal) (e : Option QueryError)
    (c : Cursor p) (cs : Cursors os) :
    brought s (.probe e c cs : Cursor (.probe uid p os)) =
      s.error?.or (((err c).or (brought .clear c)).or (firstErr cs)) := rfl

omit [Item α] in
theorem brought_of_isLeaf (hp : p.IsLeaf) (s : Signal) (c : Cursor p) : brought s c = none := by
  cases p with
  | probe uid p os => cases hp
  | custom n => cases n
  | _ =>
    cases c
    rfl

/-- **The error after a step at the end** is the one that was there, or the one brought out. -/
theorem err_next_of_over (s : Signal) : ∀ {c : Cursor p}, Over c →
    err (next s c).2 = (err c).or (brought s c) := by
  induction p using BasicPlan.induct generalizing s with
  | null uid =>
    intro c _
    cases c
    rfl
  | error uid e =>
    intro c _
    cases c
    rfl
  | fixed uid leaf =>
    intro c hover
    rw [next_fixed_of_over hover, brought_of_isLeaf (p := .fixed uid leaf) trivial, Option.or_none]
  | probe uid p os ih _ =>
    intro c hover
    cases c with
    | probe e c cs =>
      cases e with
      | some e => rfl
      | none =>
        have hc : Over c := hover.resolve_left (by decide)
        rw [brought_probe]
        rcases s.eq_clear_or_error? with rfl | ⟨e, he⟩
        · rw [next_probe_of_over hc]
          show (err (next .clear c).2).or (firstErr cs) = _
          rw [ih .clear hc]
          rfl
        · rw [next_probe_fired he, he]
          rfl

/-- What there is to bring out stays the same. -/
theorem brought_next_of_over (s s' : Signal) : ∀ {c : Cursor p}, Over c →
    brought s' (next s c).2 = brought s' c := by
  induction p using BasicPlan.induct generalizing s s' with
  | null uid =>
    intro c _
    cases c
    rfl
  | error uid e =>
    intro c _
    cases c
    rfl
  | fixed uid leaf =>
    intro c hover
    rw [next_fixed_of_over hover]
  | probe uid p os ih _ =>
    intro c hover
    cases c with
    | probe e c cs =>
      cases e with
      | some e => rfl
      | none =>
        have hc : Over c := hover.resolve_left (by decide)
        rcases s.eq_clear_or_error? with rfl | ⟨e, he⟩
        · have htwice : ((err c).or (brought .clear c)).or (brought .clear c) =
              (err c).or (brought .clear c) := by
            rw [Option.or_assoc, Option.or_self]
          rw [next_probe_of_over hc, brought_probe, brought_probe, err_next_of_over .clear hc,
            ih .clear .clear hc, htwice]
        · rw [next_probe_fired he]
          rfl

/-- **A step that found nothing and no error leaves nothing to bring out**, as long as the context
shows nothing. -/
theorem brought_clear_of_next (s : Signal) : ∀ c : Cursor p, (next s c).1 = false →
    err (next s c).2 = none → brought .clear (next s c).2 = none := by
  induction p using BasicPlan.induct generalizing s with
  | null uid => exact fun _ _ _ => brought_of_isLeaf (p := .null uid) trivial _ _
  | error uid e => exact fun _ _ _ => brought_of_isLeaf (p := .error uid e) trivial _ _
  | fixed uid leaf => exact fun _ _ _ => brought_of_isLeaf (p := .fixed uid leaf) trivial _ _
  | probe uid p os ih _ =>
    intro c
    cases c with
    | probe e c cs =>
      have hends := next_probe_ends_anyhow uid e c cs s
      generalize next s (.probe e c cs : Cursor (.probe uid p os)) = answer at hends ⊢
      intro hno hnone
      cases hends with
      | stopped e => cases hnone
      | fired _ => cases hnone
      | @searched _ _ c₁ cs₁ _ hsearch =>
        cases hsearch with
        | @spent c₀ _ _ _ _ hstep =>
          have hfirst := ih .clear c₀
          rw [hstep] at hfirst
          -- neither the first child nor another has an error, for it would have been taken over
          have herrs : (err c₁).orElse (fun _ => firstErr cs₁) = none := hnone
          rw [Option.orElse_eq_or, Option.or_eq_none_iff] at herrs
          obtain ⟨herr, hothers⟩ := herrs
          rw [brought_probe, herr, hfirst rfl herr, hothers]
          rfl
        | found _ _ _ _ _ => cases hno
        | fault _ _ _ _ _ _ => cases hnone

/-- Without an error, the state stays the same as well. -/
theorem state_next_of_over (s : Signal) : ∀ {c : Cursor p}, Over c →
    err (next s c).2 = none → state (next s c).2 = state c := by
  induction p using BasicPlan.induct generalizing s with
  | null uid =>
    intro c _ _
    cases c
    rfl
  | error uid e =>
    intro c _ _
    cases c
    rfl
  | fixed uid leaf =>
    intro c hover _
    rw [next_fixed_of_over hover]
  | probe uid p os ih _ =>
    intro c hover hnone
    cases c with
    | probe e c cs =>
      cases e with
      | some e => cases hnone
      | none =>
        have hc : Over c := hover.resolve_left (by decide)
        rcases s.eq_clear_or_error? with rfl | ⟨e, he⟩
        · rw [next_probe_of_over hc] at hnone ⊢
          have herrs : (err (next .clear c).2).or (firstErr cs) = none := hnone
          rw [herrs]
          exact ih .clear hc (Option.or_eq_none_iff.1 herrs).1
        · rw [next_probe_fired he] at hnone
          cases hnone

/-! ## Many steps at the end -/

/-- The cursor after further steps, under contexts with these signals. -/
def stepped (ss : List Signal) (c : Cursor p) : Cursor p := Request.afterAll (ss.map .next) c

theorem stepped_cons (s : Signal) (ss : List Signal) (c : Cursor p) :
    stepped (s :: ss) c = stepped ss (next s c).2 := rfl

theorem over_next {c : Cursor p} (h : Over c) (s : Signal) : Over (next s c).2 :=
  over_of_next s c (next_of_over s h)

theorem over_stepped {ss : List Signal} : ∀ {c : Cursor p}, Over c → Over (stepped ss c) := by
  induction ss with
  | nil => exact id
  | cons s ss ih => exact fun h => ih (over_next h s)

theorem unmoved_stepped {ss : List Signal} : ∀ {c : Cursor p}, Over c →
    Unmoved c (stepped ss c) := by
  induction ss with
  | nil => exact fun _ => .refl _
  | cons s ss ih => exact fun h => (unmoved_next s h).trans (ih (over_next h s))

theorem err_stepped {ss : List Signal} : ∀ {c : Cursor p}, Over c →
    err (stepped ss c) = (err c).or (ss.findSome? fun s => brought s c) := by
  induction ss with
  | nil =>
    intro c _
    exact (Option.or_none).symm
  | cons s ss ih =>
    intro c h
    have hrest : (fun s' => brought s' (next s c).2) = fun s' => brought s' c :=
      funext fun s' => brought_next_of_over s s' h
    rw [stepped_cons, ih (over_next h s), hrest, err_next_of_over s h, Option.or_assoc,
      List.findSome?_cons]
    cases brought s c <;> rfl

/-- Further steps leave the state alone, or the root has failed. -/
theorem state_stepped (ss : List Signal) : ∀ {c : Cursor p}, Over c → Orderly c →
    state (stepped ss c) = if (err (stepped ss c)).isSome then .failed else state c := by
  induction ss with
  | nil =>
    intro c _ hc
    by_cases hsome : (err c).isSome = true
    · have hfailed : state c = .failed := (state_eq_failed_iff hc).2 (Or.inl hsome)
      exact hfailed.trans (if_pos hsome).symm
    · exact (if_neg hsome).symm
  | cons s ss ih =>
    intro c h hc
    have hrest := ih (over_next h s) (orderly_after (.next s) hc)
    rw [← stepped_cons] at hrest
    by_cases hsome : (err (stepped (s :: ss) c)).isSome = true
    · rw [if_pos hsome] at hrest ⊢
      exact hrest
    · rw [if_neg hsome] at hrest ⊢
      -- an error after the first step would still be there
      have hfirst : err (next s c).2 = none := by
        have hnone : err (stepped (s :: ss) c) = none := by simpa using hsome
        rw [stepped_cons, err_stepped (over_next h s), Option.or_eq_none_iff] at hnone
        exact hnone.1
      exact hrest.trans (state_next_of_over s h hfirst)

/-- **What decides whether further steps show**: an error that was there, or none to bring out. -/
theorem stepped_shows_iff {ss : List Signal} {c : Cursor p} (h : Over c) (hc : Orderly c) :
    (state (stepped ss c) = state c ∧ err (stepped ss c) = err c) ↔
      (err c).isSome = true ∨ ∀ s ∈ ss, brought s c = none := by
  have herr : err (stepped ss c) = (err c).or (ss.findSome? fun s => brought s c) := err_stepped h
  cases he : err c with
  | some e =>
    rw [he, Option.some_or] at herr
    have hfailed : state c = .failed := (state_eq_failed_iff hc).2 (Or.inl (by rw [he]; rfl))
    have hstate := state_stepped ss h hc
    rw [herr] at hstate
    exact ⟨fun _ => Or.inl rfl, fun _ => ⟨hstate.trans hfailed.symm, herr⟩⟩
  | none =>
    rw [he, Option.none_or] at herr
    refine ⟨fun hsame => Or.inr ?_, fun hnone => ?_⟩
    · rw [hsame.2] at herr
      exact List.findSome?_eq_none_iff.1 herr.symm
    · have hbrought : ∀ s ∈ ss, brought s c = none := hnone.resolve_left (by decide)
      rw [List.findSome?_eq_none_iff.2 hbrought] at herr
      have hstate := state_stepped ss h hc
      rw [herr] at hstate
      exact ⟨hstate, herr⟩

/-- **Steps at the end.**  At any time of its life, once a step of a tree found nothing and the
cursors did not go back to the start since, all further steps find nothing, whatever their
contexts show, and leave alone the result, the sizes, costs and counts and the bindings.  State
and error stay the same exactly if the root has an error or there is none to bring out;
otherwise the first error that is brought out stays.  Right after the step that found nothing
there is none to bring out for contexts that show nothing. -/
theorem steps_after_end (p : BasicPlan α) {c : Cursor p}
    (hc : Operator.Leads (fun _ : Request α => True) (start p) c) {s : Signal}
    (hno : (Operator.next s c).1 = false) {c' : Cursor p}
    (hc' : Operator.Leads Request.KeepsPlace (Operator.next s c).2 c') (ss : List Signal) :
    (∀ s', (Operator.next s' (stepped ss c')).1 = false) ∧
    Operator.result (stepped ss c') = Operator.result c' ∧
    Operator.stats (stepped ss c') = Operator.stats c' ∧
    (∀ dst, Operator.publish (stepped ss c') dst = Operator.publish c' dst) ∧
    (Operator.state (stepped ss c') = Operator.state c' ∧
        Operator.err (stepped ss c') = Operator.err c' ↔
      (Operator.err c').isSome = true ∨ ∀ s' ∈ ss, brought s' c' = none) ∧
    Operator.err (stepped ss c') =
      (Operator.err c').or (ss.findSome? fun s' => brought s' c') ∧
    Operator.state (stepped ss c') =
      (if (Operator.err (stepped ss c')).isSome then .failed else Operator.state c') ∧
    ∀ n, Operator.state (stepped (List.replicate n .clear) (Operator.next s c).2) =
        Operator.state (Operator.next s c).2 ∧
      Operator.err (stepped (List.replicate n .clear) (Operator.next s c).2) =
        Operator.err (Operator.next s c).2 := by
  have hfirst : Over (next s c).2 ∧ Orderly (next s c).2 :=
    ⟨over_of_next s c hno, orderly_after (.next s) (orderly_of_leads hc)⟩
  obtain ⟨hover, horderly⟩ : Over c' ∧ Orderly c' :=
    hc'.invariant (P := fun c => Over c ∧ Orderly c)
      (fun q hq _ h => ⟨over_after hq h.1, orderly_after q h.2⟩) hfirst
  have hunmoved : Unmoved c' (stepped ss c') := unmoved_stepped hover
  refine ⟨fun s' => next_of_over s' (over_stepped hover), hunmoved.result, hunmoved.stats,
    hunmoved.publish, stepped_shows_iff hover horderly, err_stepped hover,
    state_stepped ss hover horderly, fun n => (stepped_shows_iff hfirst.1 hfirst.2).2 ?_⟩
  cases herr : err (next s c).2 with
  | some e => exact Or.inl rfl
  | none =>
    refine Or.inr fun s' hs' => ?_
    rw [List.eq_of_mem_replicate hs']
    exact brought_clear_of_next s c hno herr

/-- An intersection that has run out, and was tested and closed since. -/
def spentShared : Cursor oneShared :=
  Request.afterAll [.next .clear, .contains .clear ⟨[1]⟩, .close] onShared

/-- Further steps under contexts that show nothing change nothing of an intersection that has run
out, and a leaf that was cancelled stands every context. -/
theorem steps_after_end_spentShared :
    ((Operator.next .clear onShared).1 = false ∧
      Operator.state (stepped [.clear, .clear] spentShared) = Operator.state spentShared ∧
      Operator.err (stepped [.clear, .clear] spentShared) = Operator.err spentShared) ∧
    ((Operator.next .expired cancelledRow).1 = false ∧
      Operator.err (stepped [.expired, .clear] cancelledRow) = some .cancelled) := by
  have hshared : Operator.Leads (fun _ : Request Ref => True) (start oneShared) onShared :=
    .request _ .refl trivial
  have hrow : Operator.Leads (fun _ : Request Ref => True) (start oneRow) cancelledRow :=
    .request _ .refl trivial
  have hno : (Operator.next .clear onShared).1 = false := by decide
  have hno' : (Operator.next .expired cancelledRow).1 = false := by decide
  have hlater : Operator.Leads Request.KeepsPlace (Operator.next .clear onShared).2 spentShared :=
    .request .close (.request (.contains .clear (⟨[1]⟩ : Ref)) .refl trivial) trivial
  obtain ⟨-, -, -, -, hsame, -⟩ := steps_after_end oneShared hshared hno hlater [.clear, .clear]
  obtain ⟨-, -, -, -, -, herr, -⟩ := steps_after_end oneRow hrow hno' .refl [.expired, .clear]
  exact ⟨⟨hno, hsame.2 (Or.inr (by decide))⟩, hno', herr⟩

/-- **A step at the end can bring out an error**: an intersection that has run out looks at its
context again, and has failed if that was cancelled in the meantime. -/
theorem step_after_end_brings_error :
    (Operator.next .clear onShared).1 = false ∧
    Operator.state (Operator.next .clear onShared).2 = .exhausted ∧
    Operator.err (Operator.next .clear onShared).2 = none ∧
    Operator.state (stepped [.cancelled] (Operator.next .clear onShared).2) = .failed ∧
    Operator.err (stepped [.cancelled] (Operator.next .clear onShared).2) = some .cancelled := by
  decide

/-! ## Path steps at the end -/

/-- Is the leaf at its end on which the paths of the root depend? -/
def TipOver : {p : BasicPlan α} → Cursor p → Prop
  | .null _, _ => True
  | .error _ _, _ => True
  | .fixed _ _, .fixed c => c.progress.state.isTerminal = true
  | .probe _ _ _, .probe _ c _ => TipOver c

omit [Item α] in
/-- Where the tip is at its end, there is no way left. -/
theorem waysLeft_of_tipOver : ∀ {c : Cursor p}, Orderly c → TipOver c → waysLeft c = 0 := by
  induction p using BasicPlan.induct with
  | null uid =>
    intro c _ _
    cases c
    rfl
  | error uid e =>
    intro c _ _
    cases c
    rfl
  | fixed uid leaf =>
    intro c hc htip
    cases c with
    | fixed c =>
      have hsound : c.Sound := hc
      have hcurrent : c.current = none := hsound.parked htip
      exact waysLeft_of_none (by rw [RowSet.currentRow, hcurrent]; rfl)
  | probe uid p os ih _ =>
    intro c hc htip
    cases c with
    | probe e c cs => exact ih hc.1 htip

omit [Item α] in
/-- At its end, a root that holds no error of its own stands above a tip at its end. -/
theorem tipOver_of_isTerminal : ∀ {c : Cursor p}, Orderly c → ownErr c = none →
    (state c).isTerminal = true → TipOver c := by
  induction p using BasicPlan.induct with
  | null uid =>
    intro c _ _ _
    cases c
    trivial
  | error uid e =>
    intro c _ _ _
    cases c
    trivial
  | fixed uid leaf =>
    intro c _ _ hend
    cases c with
    | fixed c => exact hend
  | probe uid p os ih _ =>
    intro c hc hown hend
    cases c with
    | probe e c cs =>
      obtain rfl : e = none := hown
      exact ih hc.1 (hc.2 rfl) hend

omit [Item α] in
/-- A root whose state says so is at its end. -/
theorem over_of_isTerminal : ∀ {c : Cursor p}, (state c).isTerminal = true → Over c := by
  induction p using BasicPlan.induct with
  | null uid =>
    intro c _
    cases c
    trivial
  | error uid e =>
    intro c _
    cases c
    trivial
  | fixed uid leaf =>
    intro c hend
    cases c with
    | fixed c => exact hend
  | probe uid p os ih _ =>
    intro c hend
    cases c with
    | probe e c cs =>
      cases e with
      | some e => exact Or.inl rfl
      | none => exact Or.inr (ih hend)

omit [Item α] in
/-- **A path step finds something exactly if a way is left** and its context has not fired. -/
theorem nextPath_fst_iff (s : Signal) : ∀ {c : Cursor p},
    (nextPath s c).1 = true ↔ s = .clear ∧ 0 < waysLeft c := by
  induction p using BasicPlan.induct with
  | null uid =>
    intro c
    cases c
    exact ⟨nofun, fun h => absurd h.2 (Nat.lt_irrefl 0)⟩
  | error uid e =>
    intro c
    cases c
    exact ⟨nofun, fun h => absurd h.2 (Nat.lt_irrefl 0)⟩
  | fixed uid leaf =>
    intro c
    cases c with
    | fixed c =>
      have hends := leaf.nextPath_ends s c
      rw [nextPath_fixed]
      generalize leaf.nextPath s c = answer at hends ⊢
      cases hends with
      | off hr =>
        rw [waysLeft_of_none hr]
        exact ⟨nofun, fun h => absurd h.2 (Nat.lt_irrefl 0)⟩
      | fired _ he =>
        refine ⟨nofun, fun h => ?_⟩
        rw [h.1] at he
        cases he
      | spent hr _ hp =>
        rw [waysLeft_fixed hr]
        exact ⟨nofun, fun h => absurd h.2 (by omega)⟩
      | moved hr hs hp =>
        rw [waysLeft_fixed hr]
        exact ⟨fun _ => ⟨hs, by omega⟩, fun _ => rfl⟩
  | probe uid p os ih _ =>
    intro c
    cases c with
    | probe e c cs => exact ih

/-- Where no way is left, none comes back but by a step or a rewind. -/
theorem waysLeft_after {q : Request α} (hq : q.KeepsPlace) (hnext : ∀ s, q ≠ .next s) :
    ∀ {c : Cursor p}, waysLeft c = 0 → waysLeft (q.after c) = 0 := by
  induction p using BasicPlan.induct with
  | null uid =>
    intro c _
    cases c
    cases q <;> rfl
  | error uid e =>
    intro c _
    cases c
    cases q <;> rfl
  | fixed uid leaf =>
    intro c hzero
    cases c with
    | fixed c =>
      obtain ⟨c', hafter, hmakes⟩ := after_fixed uid leaf q c
      rw [hafter]
      cases hmakes with
      | same _ _ => exact hzero
      | stopped _ _ => exact absurd rfl (hnext _)
      | spent _ _ => exact absurd rfl (hnext _)
      | onto _ _ => exact absurd rfl (hnext _)
      | stoppedPath _ _ => exact waysLeft_of_none rfl
      | along _ =>
        cases hr : leaf.currentRow c with
        | none => exact waysLeft_of_none (c := c.along) hr
        | some row =>
          have hr' : leaf.currentRow c.along = some row := hr
          have hpath : c.along.path = c.path + 1 := rfl
          rw [waysLeft_fixed hr] at hzero
          rw [waysLeft_fixed hr', hpath]
          omega
      | stoppedTest _ => exact waysLeft_of_none rfl
      | tested _ => exact hzero
      | rewound => cases hq
      | released _ => exact hzero
  | probe uid p os ih _ =>
    intro c hzero
    cases c with
    | probe e c cs =>
      obtain ⟨cs', hafter, -⟩ := after_probe uid hnext e c cs
      rw [hafter]
      exact ih hzero

/-- At the end, what leaves the cursors in place brings back no way. -/
theorem waysLeft_after_of_over {q : Request α} (hq : q.KeepsPlace) {c : Cursor p} (h : Over c)
    (hzero : waysLeft c = 0) : waysLeft (q.after c) = 0 := by
  by_cases hnext : ∃ s, q = .next s
  · obtain ⟨s, rfl⟩ := hnext
    exact (unmoved_next s h).ways.trans hzero
  · exact waysLeft_after hq (not_exists.1 hnext) hzero

/-- **Path steps at the end.**  At any time of its life, if the state of a tree says that it is at
its end, then path steps find nothing until the cursors go back to the start, whatever their
contexts show, exactly if no way is left of reaching the last result.  None is left where the
leaf at the end of the chain of first children is at its end too, as it is if the root is a
leaf itself or has no error. -/
theorem paths_after_end (p : BasicPlan α) {c : Cursor p}
    (hc : Operator.Leads (fun _ : Request α => True) (start p) c)
    (hend : (Operator.state c).isTerminal = true) :
    ((∀ c', Operator.Leads Request.KeepsPlace c c' → ∀ s, (Operator.nextPath s c').1 = false) ↔
      waysLeft c = 0) ∧
    (TipOver c → waysLeft c = 0) ∧
    (p.IsLeaf ∨ Operator.err c = none → TipOver c) := by
  have horderly := orderly_of_leads hc
  refine ⟨⟨fun h => ?_, fun hzero c' hc' s => ?_⟩, waysLeft_of_tipOver horderly, fun h => ?_⟩
  · refine Nat.eq_zero_of_not_pos fun hways => ?_
    have hyes : (nextPath .clear c).1 = true := (nextPath_fst_iff .clear).2 ⟨rfl, hways⟩
    exact absurd (hyes.symm.trans (h c .refl .clear)) (by decide)
  · obtain ⟨-, hzero'⟩ : Over c' ∧ waysLeft c' = 0 :=
      hc'.invariant (P := fun c => Over c ∧ waysLeft c = 0)
        (fun q hq _ h => ⟨over_after hq h.1, waysLeft_after_of_over hq h.1 h.2⟩)
        ⟨over_of_isTerminal hend, hzero⟩
    rw [← Bool.not_eq_true]
    intro hyes
    exact absurd ((nextPath_fst_iff s).1 hyes).2 (by rw [hzero']; exact Nat.lt_irrefl 0)
  · have hown : ownErr c = none := h.elim (fun hp => ownErr_of_isLeaf hp c) ownErr_of_err
    exact tipOver_of_isTerminal horderly hown hend

/-- An intersection of a leaf whose row has two witnesses, and no other child. -/
def aboveTwoWays : BasicPlan Ref :=
  .probe ⟨1⟩ (.fixed ⟨0⟩ (.ofRows [⟨⟨[1]⟩, [⟨[7]⟩, ⟨[8]⟩]⟩])) []

/-- The intersection after it has run out. -/
def pastTwoWays : Cursor aboveTwoWays :=
  Request.afterAll [.next .clear, .next .clear] (start aboveTwoWays)

/-- The intersection, cancelled on its only result. -/
def cancelledOnTwoWays : Cursor aboveTwoWays :=
  Request.afterAll [.next .clear, .next .cancelled] (start aboveTwoWays)

/-- An intersection that has run out finds no further witness, whatever was asked in between. -/
theorem paths_after_end_pastTwoWays :
    (Operator.state pastTwoWays).isTerminal = true ∧ Operator.err pastTwoWays = none ∧
    ∀ s, (Operator.nextPath s (Request.after (.nextPath .expired) pastTwoWays)).1 = false := by
  have hpast : Operator.Leads (fun _ : Request Ref => True) (start aboveTwoWays) pastTwoWays :=
    Operator.Leads.refl.requests fun _ _ => trivial
  have hend : (Operator.state pastTwoWays).isTerminal = true := by decide
  have herr : Operator.err pastTwoWays = none := by decide
  obtain ⟨hpaths, htip, hover⟩ := paths_after_end aboveTwoWays hpast hend
  exact ⟨hend, herr, hpaths.2 (htip (hover (Or.inr herr))) _ (.request _ .refl trivial)⟩

/-- **A path step at the end can find something**: an intersection that was cancelled on a result
is at its end, and its first child still has the other witness. -/
theorem path_after_end :
    Operator.Leads (fun _ : Request Ref => True) (start aboveTwoWays) cancelledOnTwoWays ∧
    (Operator.state cancelledOnTwoWays).isTerminal = true ∧
    (Operator.nextPath .clear cancelledOnTwoWays).1 = true := by
  refine ⟨Operator.Leads.refl.requests fun _ _ => trivial, ?_, ?_⟩
  · decide
  · decide

end QueryPlan.Cursor
