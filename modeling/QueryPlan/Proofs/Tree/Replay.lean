import QueryPlan.Proofs.Tree.Copies
import QueryPlan.Proofs.Tree.Requests

/-!
# Rewound trees

Rewinding takes every cursor of a tree back to its start, but no error away.  So a tree whose
nodes have no errors can be run over again, and nothing that was asked of it before shows.

* `Cursor.unhurt_after` — where there is no error leaf, requests under contexts that show
  nothing bring no error about.
* `Cursor.alike_rewind` — rewound cursors without errors are alike to those of the newly built
  tree.
* `Cursor.rewound_tree_replays` — so all runs over them and over a copy of that tree agree.
-/

namespace QueryPlan.Cursor

variable {α : Type}

/-! ## Trees without errors -/

mutual

/-- There is no error anywhere in the tree. -/
inductive Unhurt : {p : BasicPlan α} → Cursor p → Prop where
  /-- A node without results has none. -/
  | null {uid : Uid} : Unhurt (.null : Cursor (.null uid))
  /-- A leaf that was not stopped has none. -/
  | fixed {uid : Uid} {leaf : RowSet α} {c : RowCursor} (herr : c.err = none)
      (hstate : c.progress.state ≠ .failed) : Unhurt (.fixed c : Cursor (.fixed uid leaf))
  /-- Neither the intersection nor its children have any. -/
  | probe {uid : Uid} {p : BasicPlan α} {os : List (BasicPlan α)} {c : Cursor p} {cs : Cursors os}
      (h : Unhurt c) (hs : UnhurtAll cs) : Unhurt (.probe none c cs : Cursor (.probe uid p os))

/-- There is no error anywhere in several trees. -/
inductive UnhurtAll : {ps : List (BasicPlan α)} → Cursors ps → Prop where
  /-- There are no trees. -/
  | nil : UnhurtAll .nil
  /-- Neither in the first nor in the others. -/
  | cons {p : BasicPlan α} {ps : List (BasicPlan α)} {c : Cursor p} {cs : Cursors ps}
      (h : Unhurt c) (hs : UnhurtAll cs) : UnhurtAll (.cons c cs : Cursors (p :: ps))

end

theorem unhurt_startAll {ps : List (BasicPlan α)} (hps : ∀ p ∈ ps, Unhurt (start p)) :
    UnhurtAll (startAll ps) := by
  induction ps with
  | nil => exact .nil
  | cons p ps ih =>
    exact .cons (hps p List.mem_cons_self) (ih fun q hq => hps q (List.mem_cons_of_mem _ hq))

/-- A newly built tree without an error leaf has no errors. -/
theorem unhurt_start {p : BasicPlan α} (hp : p.hasErrorLeaf = false) : Unhurt (start p) := by
  induction p using BasicPlan.induct with
  | null uid => exact .null
  | error uid e => cases hp
  | fixed uid leaf => exact .fixed rfl (by decide)
  | probe uid p os ih ihos =>
    rw [Plan.hasErrorLeaf_probe, Bool.or_eq_false_iff] at hp
    obtain ⟨hfirst, hothers⟩ := hp
    have hnone : ∀ o ∈ os, o.hasErrorLeaf = false := by
      intro o ho
      refine Bool.eq_false_iff.2 fun hfault => ?_
      rw [Plan.anyHasErrorLeaf_iff.2 ⟨o, ho, hfault⟩] at hothers
      cases hothers
    exact .probe (ih hfirst) (unhurt_startAll fun o ho => ihos o ho (hnone o ho))

theorem err_of_unhurt {p : BasicPlan α} {c : Cursor p} (h : Unhurt c) : err c = none := by
  cases h with
  | null => rfl
  | fixed herr _ => exact herr
  | probe _ _ => rfl

theorem firstErr_of_unhurt {ps : List (BasicPlan α)} :
    ∀ {cs : Cursors ps}, UnhurtAll cs → firstErr cs = none := by
  induction ps with
  | nil =>
    intro cs h
    cases h
    rfl
  | cons p ps ih =>
    intro cs h
    cases h with
    | cons h hs =>
      rw [firstErr_cons, err_of_unhurt h, ih hs]
      rfl

/-! ## What keeps errors away -/

section Requests

variable [Item α]

omit [Item α] in
theorem unhurt_fixed {uid : Uid} {leaf : RowSet α} {q : Request α} (hq : q.Clear)
    {c c' : RowCursor} (hmakes : leaf.Makes c q c')
    (h : Unhurt (.fixed c : Cursor (.fixed uid leaf))) :
    Unhurt (.fixed c' : Cursor (.fixed uid leaf)) := by
  have hclear := hq.error?_eq_none
  cases h with
  | fixed herr hstate =>
    cases hmakes with
    | same _ _ => exact .fixed herr hstate
    | stopped _ he => cases hclear.symm.trans he
    | spent _ _ => exact .fixed herr nofun
    | onto _ _ => exact .fixed herr nofun
    | stoppedPath _ he => cases hclear.symm.trans he
    | along _ => exact .fixed herr hstate
    | stoppedTest he => cases hclear.symm.trans he
    | tested _ => exact .fixed herr hstate
    | rewound =>
      refine .fixed herr ?_
      rw [RowCursor.state_rewind, if_neg hstate]
      decide
    | released _ => exact .fixed herr hstate

theorem unhurt_touched {q : Request α} {ps : List (BasicPlan α)}
    (hps : ∀ p ∈ ps, ∀ c : Cursor p, Unhurt c → Unhurt (q.after c)) :
    ∀ {cs cs' : Cursors ps}, Touched q cs cs' → UnhurtAll cs → UnhurtAll cs' := by
  induction ps with
  | nil =>
    intro cs cs' ht _
    cases cs'
    exact .nil
  | cons p ps ih =>
    intro cs cs' ht h
    cases ht with
    | none _ => exact h
    | cons c ht =>
      cases h with
      | cons h hs =>
        exact .cons (hps p List.mem_cons_self c h)
          (ih (fun p hp => hps p (List.mem_cons_of_mem _ hp)) ht hs)

/-- **Requests under contexts that show nothing bring no error about.** -/
theorem unhurt_after {p : BasicPlan α} :
    ∀ {q : Request α}, q.Clear → ∀ {c : Cursor p}, Unhurt c → Unhurt (q.after c) := by
  induction p using BasicPlan.induct with
  | null uid =>
    intro q _ c h
    cases h
    cases q <;> exact .null
  | error uid e =>
    intro q _ c h
    cases h
  | fixed uid leaf =>
    intro q hq c h
    cases c with
    | fixed c =>
      obtain ⟨c', hafter, hmakes⟩ := after_fixed uid leaf q c
      rw [hafter]
      exact unhurt_fixed hq hmakes h
  | probe uid p os ih ihos =>
    intro q hq c h
    cases h with
    | @probe _ _ _ c cs h hs =>
      by_cases hnext : ∃ s, q = .next s
      · obtain ⟨s, rfl⟩ := hnext
        obtain rfl : s = .clear := hq
        -- the search moves the first child by steps and the others by tests, and both keep
        -- errors away from the children; what it answers is looked up among them
        have hstep (c : Cursor p) (h : Unhurt c) : Unhurt (next .clear c).2 :=
          ih (q := .next .clear) rfl h
        have htest (x : α) (cs : Cursors os) (hs : UnhurtAll cs) :
            UnhurtAll (containsAll .clear x cs).2 :=
          unhurt_touched (fun o ho c h => ihos o ho (q := .contains .clear x) rfl h)
            (touched_containsAll .clear x cs) hs
        have hends : ProbeEnds .clear Unhurt UnhurtAll c cs none
            (next .clear (.probe none c cs : Cursor (.probe uid p os))) :=
          next_probe_ends hstep htest h hs none .clear
        show Unhurt (next .clear (.probe none c cs : Cursor (.probe uid p os))).2
        generalize next .clear (.probe none c cs : Cursor (.probe uid p os)) = answer at hends ⊢
        cases hends with
        | fired he => cases he
        | searched _ hsearch =>
          cases hsearch with
          | @spent c₀ c₁ cs₀ hc₀ hcs₀ hno =>
            have hc₁ := hstep c₀ hc₀
            rw [hno] at hc₁
            dsimp only at hc₁
            rw [err_of_unhurt hc₁, firstErr_of_unhurt hcs₀]
            exact .probe hc₁ hcs₀
          | @found c₀ c₁ cs₀ cs₁ x hc₀ hcs₀ hyes _ hall =>
            have hc₁ := hstep c₀ hc₀
            have hcs₁ := htest x cs₀ hcs₀
            rw [hyes] at hc₁
            rw [hall] at hcs₁
            exact .probe hc₁ hcs₁
          | @fault _ _ cs₀ cs₁ x e _ hcs₀ _ _ hall he =>
            have hcs₁ := htest x cs₀ hcs₀
            rw [hall] at hcs₁
            rw [firstErr_of_unhurt hcs₁] at he
            cases he
      · obtain ⟨cs', hafter, htouched⟩ :=
          after_probe uid (not_exists.1 hnext) none c cs
        rw [hafter]
        exact .probe (ih hq h) (unhurt_touched (fun o ho c h => ihos o ho hq h) htouched hs)

end Requests

/-! ## Rewinding -/

theorem alike_rewindAll {ps : List (BasicPlan α)}
    (hps : ∀ p ∈ ps, ∀ c : Cursor p, Unhurt c → Alike (rewind c) (start p)) :
    ∀ {cs : Cursors ps}, UnhurtAll cs → AlikeAll (rewindAll cs) (startAll ps) := by
  induction ps with
  | nil =>
    intro cs hs
    cases hs
    exact .nil
  | cons p ps ih =>
    intro cs hs
    cases hs with
    | @cons _ _ c cs h hs =>
      exact .cons (hps p List.mem_cons_self c h)
        (ih (fun q hq => hps q (List.mem_cons_of_mem _ hq)) hs)

/-- **A rewound tree without errors is alike to the newly built one.** -/
theorem alike_rewind {p : BasicPlan α} :
    ∀ {c : Cursor p}, Unhurt c → Alike (rewind c) (start p) := by
  induction p using BasicPlan.induct with
  | null uid =>
    intro c h
    cases h
    exact .null
  | error uid e =>
    intro c h
    cases h
  | fixed uid leaf =>
    intro c h
    cases h with
    | @fixed _ _ c herr hstate =>
      have hprogress : c.rewind.progress = .new .unstarted := by
        rw [RowCursor.progress_rewind, if_neg hstate]
        rfl
      exact .fixed ⟨hprogress, rfl, rfl, rfl, herr⟩
  | probe uid p os ih ihos =>
    intro c h
    cases h with
    | probe h hs => exact .probe none (ih h) (alike_rewindAll (fun o ho c h => ihos o ho h) hs)

/-! ## Running again -/

/-- At any time of a life under contexts that show nothing there is no error. -/
theorem unhurt_of_leads [Item α] {p : BasicPlan α} (hp : p.hasErrorLeaf = false) {c : Cursor p}
    (hc : Operator.Leads Request.Clear (start p) c) : Unhurt c :=
  hc.invariant (fun _ hq _ h => unhurt_after hq h) (unhurt_start hp)

/-- **A rewound tree replays.**  Whatever was asked of a tree without an error leaf under
contexts that show nothing, after rewinding it every run, with any options and under any
context, gives the same answer as over a newly built copy and leaves the same world
behind. -/
theorem rewound_tree_replays [Item α] {ω : Type} (p : BasicPlan α) (hp : p.hasErrorLeaf = false)
    {c : Cursor p} (hc : Operator.Leads Request.Clear (start p) c) {p' : BasicPlan α}
    (hcopy : Plan.IsCopy p p') (r : Run ω) (w : ω) {turns : Nat}
    (hturns : turnsFor (start p') ≤ turns) :
    r.SameAnswers turns (Operator.rewind c) (start p') w := by
  have hrewind : Alike (rewind c) (start p) := alike_rewind (unhurt_of_leads hp hc)
  have hstart : turnsFor (start p) ≤ turns := by
    rw [turnsFor_alike (alike_start hcopy)]
    exact hturns
  have hcursor : turnsFor (rewind c) ≤ turns := by
    rw [turnsFor_alike hrewind]
    exact hstart
  exact (sameAnswers_of_alike hrewind r w hcursor).trans (sameAnswers_of_isCopy hcopy r w hstart)

/-- An intersection with one result, which can be reached in two ways. -/
def twoWays : BasicPlan Ref :=
  .probe ⟨2⟩ (.fixed ⟨0⟩ (.ofRows [⟨⟨[1]⟩, []⟩, ⟨⟨[2]⟩, [⟨[7]⟩, ⟨[8]⟩]⟩]))
    [.fixed ⟨1⟩ (.ofValues [⟨[2]⟩])]

/-- A copy of it, built later. -/
def twoWaysAgain : BasicPlan Ref :=
  .probe ⟨5⟩ (.fixed ⟨3⟩ (.ofRows [⟨⟨[1]⟩, []⟩, ⟨⟨[2]⟩, [⟨[7]⟩, ⟨[8]⟩]⟩]))
    [.fixed ⟨4⟩ (.ofValues [⟨[2]⟩])]

/-- The first of the two in the middle of its paths, and closed. -/
def halfway : Cursor twoWays :=
  Request.afterAll [.next .clear, .nextPath .clear, .contains .clear ⟨[1]⟩, .close] (start twoWays)

theorem rewound_tree_replays_halfway :
    twoWays.hasErrorLeaf = false ∧ Operator.Leads Request.Clear (start twoWays) halfway ∧
    Plan.IsCopy twoWays twoWaysAgain ∧ turnsFor (start twoWaysAgain) ≤ 7 ∧
    (Run.mk ⟨none, true⟩ fun n => (if n < 3 then .clear else .cancelled, n + 1)).SameAnswers 7
      (Operator.rewind halfway) (start twoWaysAgain) 0 := by
  have hleads : Operator.Leads Request.Clear (start twoWays) halfway := by
    refine Operator.Leads.refl.requests fun q hq => ?_
    simp only [List.mem_cons, List.not_mem_nil, or_false] at hq
    rcases hq with rfl | rfl | rfl | rfl <;> rfl
  have hcopy : Plan.IsCopy twoWays twoWaysAgain :=
    .probe _ _ (.fixed _ _ _) (.cons (.fixed _ _ _) .nil)
  have hturns : turnsFor (start twoWaysAgain) ≤ 7 := by decide
  exact ⟨rfl, hleads, hcopy, hturns, rewound_tree_replays twoWays rfl hleads hcopy _ 0 hturns⟩

end QueryPlan.Cursor
