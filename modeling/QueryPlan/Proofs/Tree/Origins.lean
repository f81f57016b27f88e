import QueryPlan.Proofs.Tree.Chain
import QueryPlan.Proofs.Tree.Faults

/-!
# Where errors come from

Errors are only ever passed on.  As long as no context fires, each that a node holds was read
off an error leaf of the plan, whatever has been asked of the tree before; so a run can report
no other, and where there is such a leaf it finds no results, whether it reports the leaf or
not.

* `Plan.faults` — the errors of a plan's error leaves, and among them the fault that it shows
  (`Plan.shownFault_mem_faults`).
* `Cursor.healthy_of_leads` — what the errors in a tree are at any time of a life under contexts
  that show nothing.
* `Run.errors_come_from_leaves` — **runs invent no errors, and have no results beside one.**
-/

namespace QueryPlan

variable {α : Type}

/-! ## The errors of a plan -/

namespace Plan

mutual

/-- The errors of the error leaves. -/
def faults : BasicPlan α → List QueryError
  | .null _ => []
  | .error _ e => [e]
  | .fixed _ _ => []
  | .probe _ p os => faults p ++ allFaults os

/-- The errors of the error leaves of several plans. -/
def allFaults : List (BasicPlan α) → List QueryError
  | [] => []
  | p :: ps => faults p ++ allFaults ps

end

theorem faults_probe {uid : Uid} {p : BasicPlan α} {os : List (BasicPlan α)} :
    faults (.probe uid p os) = faults p ++ allFaults os := rfl

@[simp] theorem allFaults_nil : allFaults ([] : List (BasicPlan α)) = [] := rfl

@[simp] theorem allFaults_cons {p : BasicPlan α} {ps : List (BasicPlan α)} :
    allFaults (p :: ps) = faults p ++ allFaults ps := rfl

theorem mem_allFaults {e : QueryError} {ps : List (BasicPlan α)} :
    e ∈ allFaults ps ↔ ∃ p ∈ ps, e ∈ p.faults := by
  induction ps with
  | nil => simp
  | cons p ps ih => simp [ih]

/-- **The fault that a plan shows is that of one of its error leaves.** -/
theorem shownFault_mem_faults {p : BasicPlan α} :
    ∀ {e : QueryError}, p.shownFault = some e → e ∈ p.faults := by
  induction p using BasicPlan.induct with
  | null uid => nofun
  | error uid e =>
    intro e' h
    cases h
    exact List.mem_singleton_self e
  | fixed uid leaf => nofun
  | probe uid p os ih _ =>
    intro e h
    rw [shownFault_probe, Option.or_eq_some_iff] at h
    rw [faults_probe, List.mem_append, mem_allFaults]
    rcases h with h | ⟨-, h⟩
    · exact Or.inl (ih h)
    · obtain ⟨o, ho, hfault⟩ := List.exists_of_findSome?_eq_some h
      refine Or.inr ⟨o, ho, ?_⟩
      cases o with
      | error uid e' =>
        cases hfault
        exact List.mem_singleton_self e
      | _ => cases hfault

/-- Does the plan explain what a run answers?  An error has to be one of its error leaves', and
where it has such a leaf, a success has to be without results. -/
def Explains {β : Type} (p : BasicPlan α) (nothing : β) : Except QueryError β → Prop
  | .error e => e ∈ p.faults
  | .ok x => p.hasErrorLeaf = true → x = nothing

/-- An explained answer is so in other words too. -/
theorem Explains.map {β γ : Type} {p : BasicPlan α} {nothing : β} {answer : Except QueryError β}
    (h : p.Explains nothing answer) {nothing' x : γ}
    (hx : p.hasErrorLeaf = true → x = nothing') :
    p.Explains nothing' (answer.map fun _ => x) := by
  cases answer with
  | error e => exact h
  | ok _ => exact hx

end Plan

/-! ## Requests under contexts that show nothing -/

namespace Cursor

variable [Item α]

/-- Where contexts fire at steps only, nothing but a step changes the error of a root. -/
theorem err_after_eq {q : Request α} (hq : q.FiresAtSteps) (hnext : ∀ s, q ≠ .next s)
    {p : BasicPlan α} (c : Cursor p) : err (q.after c) = err c := by
  cases p with
  | null uid => rfl
  | error uid e => rfl
  | fixed uid leaf =>
    cases c with
    | fixed c =>
      obtain ⟨c', hafter, hmakes⟩ := after_fixed uid leaf q c
      rw [hafter]
      exact hmakes.err_eq hq hnext
  | probe uid p os =>
    cases c with
    | probe e c cs =>
      obtain ⟨cs', hafter, -⟩ := after_probe uid hnext e c cs
      rw [hafter]
      rfl
  | custom n => cases n

theorem firstErr_of_touched {q : Request α} (hq : q.FiresAtSteps) (hnext : ∀ s, q ≠ .next s)
    {ps : List (BasicPlan α)} :
    ∀ {cs cs' : Cursors ps}, Touched q cs cs' → firstErr cs' = firstErr cs := by
  induction ps with
  | nil =>
    intro cs cs' h
    cases h
    rfl
  | cons p ps ih =>
    intro cs cs' h
    cases h with
    | none _ => rfl
    | cons c h => rw [firstErr_cons, firstErr_cons, err_after_eq hq hnext, ih h]

omit [Item α] in
/-- What is healthy about a leaf stays so. -/
theorem healthy_fixed {uid : Uid} {leaf : RowSet α} {q : Request α} (hq : q.Clear)
    {c c' : RowCursor} (hsound : c.Sound) (hmakes : leaf.Makes c q c')
    (h : Healthy (.fixed c : Cursor (.fixed uid leaf))) :
    Healthy (.fixed c' : Cursor (.fixed uid leaf)) := by
  have hclear := hq.error?_eq_none
  obtain ⟨herr, hover⟩ := h
  cases hmakes with
  | stopped _ he => cases hclear.symm.trans he
  | stoppedPath _ he => cases hclear.symm.trans he
  | stoppedTest he => cases hclear.symm.trans he
  | spent _ hi => exact ⟨herr, fun _ => hi⟩
  | onto _ _ => exact ⟨herr, fun h => by cases h⟩
  | rewound =>
    -- a leaf without an error has not failed, so the rewind takes it off its end
    have hfailed : c.progress.state ≠ .failed := fun hf => by
      have hsome := hsound.failed_iff.1 hf
      rw [herr] at hsome
      cases hsome
    refine ⟨herr, fun h => ?_⟩
    rw [RowCursor.state_rewind, if_neg hfailed] at h
    cases h
  | _ => exact ⟨herr, hover⟩

/-- **Requests under contexts that show nothing leave a tree healthy.** -/
theorem healthy_after {p : BasicPlan α} : ∀ {q : Request α}, q.Clear → ∀ {c : Cursor p},
    Orderly c → Healthy c → Healthy (q.after c) := by
  induction p using BasicPlan.induct with
  | null uid =>
    intro q _ c _ _
    cases c
    cases q <;> trivial
  | error uid e =>
    intro q _ c _ _
    cases c
    cases q <;> trivial
  | fixed uid leaf =>
    intro q hq c horderly h
    cases c with
    | fixed c =>
      obtain ⟨c', hafter, hmakes⟩ := after_fixed uid leaf q c
      rw [hafter]
      exact healthy_fixed hq horderly hmakes h
  | probe uid p os ih _ =>
    intro q hq c horderly h
    by_cases hnext : ∃ s, q = .next s
    · obtain ⟨s, rfl⟩ := hnext
      obtain rfl : s = .clear := hq
      exact (next_stepsTo c h).1
    · cases c with
      | probe e c cs =>
        obtain ⟨hc, hcs, he⟩ := h
        obtain ⟨cs', hafter, htouched⟩ := after_probe uid (not_exists.1 hnext) e c cs
        rw [hafter]
        exact ⟨ih hq horderly.1 hc,
          (firstErr_of_touched hq.firesAtSteps (not_exists.1 hnext) htouched).trans hcs, he⟩

/-- **At any time of a life under contexts that show nothing a tree is healthy.**  So an
intersection along the chain of first children holds no error but the fault that its plan
shows. -/
theorem healthy_of_leads {p : BasicPlan α} {c : Cursor p}
    (h : Operator.Leads Request.Clear (start p) c) : Healthy c :=
  (h.invariant (P := fun c => Orderly c ∧ Healthy c)
    (fun q hq _ h => ⟨orderly_after q h.1, healthy_after hq h.1 h.2⟩)
    ⟨orderly_start p, healthy_start p⟩).2

end Cursor

/-! ## Runs -/

namespace Run

variable {ω : Type}

/-- A run that visits nothing gathers nothing. -/
theorem gathered_of_unvisited {σ β : Type} [Operator σ α] {r : Run ω}
    {visit : σ → ω × β → ω × β} {turns : Nat} {it : σ} {w : ω} {b : β}
    {rep : Report (Recorded σ) ((ω × β) × List (Recorded σ)) Nat}
    (h : (r.gathering β).observed visit turns it (w, b) = some rep) (hnone : rep.world.2 = []) :
    rep.world.1.2 = b := by
  obtain ⟨e, he, -, -, hworld, -⟩ := of_observed_eq_some h
  obtain ⟨s, hs, ht⟩ := Loop.reaches_of_haltFrom? he
  have hkept : s.world.2 = [] → s.world.1.2 = b := by
    refine hs.invariant (P := fun t => t.world.2 = [] → t.world.1.2 = b) ?_ fun _ => rfl
    intro t t' _ hgathered hturn
    obtain ⟨-, -, ⟨-, rfl⟩ | ⟨-, -, rfl⟩⟩ := Loop.turn_eq_go hturn
    · exact fun h => absurd h (List.append_ne_nil_of_right_ne_nil _ (List.cons_ne_nil _ _))
    · exact hgathered
  rw [hworld] at hnone ⊢
  rcases Loop.turn_eq_halt ht with ⟨-, rfl⟩ | ⟨-, e, -, rfl⟩ | ⟨-, -, -, -, rfl⟩
  · exact hkept hnone
  · exact hkept hnone
  · exact hkept hnone

variable [Item α] {p : BasicPlan α} {c : Cursor p}

/-- A run over a healthy tree whose context does not fire is explained by the plan, and visits
nothing if the plan has an error leaf. -/
theorem observed_explained {r : Run ω} {visit : Cursor p → ω → ω} {w : ω}
    (hc : Cursor.Healthy c) (hclear : (r.loop visit).Unfired (.start c w)) {turns : Nat}
    (hturns : turnsFor c ≤ turns) :
    ∃ rep, r.observed visit turns c w = some rep ∧
      (p.hasErrorLeaf = true → rep.world.2 = []) ∧ p.Explains 0 rep.outcome := by
  obtain ⟨e, he, hvisits, -, herr⟩ := observed_tree hc hclear hturns
  have hobs : r.observed visit turns c w = some (Report.ofHalt (Operator.uid c) e) := by
    rw [observed_eq, he]
    rfl
  have hcount := length_visits_of_haltFrom? he
  have hnone (hfault : p.hasErrorLeaf = true) : e.world.2 = [] := by
    rw [Cursor.ahead_of_hasErrorLeaf hfault, Plan.visitsOf, List.flatMap_nil, RunOptions.cut,
      RunOptions.room_nil] at hvisits
    exact List.map_eq_nil_iff.1 hvisits
  refine ⟨_, hobs, fun hfault => by rw [ofHalt_world]; exact hnone hfault, ?_⟩
  rw [ofHalt_outcome]
  cases hend : e.err with
  | none =>
    intro hfault
    rw [← hcount, hnone hfault]
    rfl
  | some e' =>
    rw [hend] at herr
    exact Plan.shownFault_mem_faults (herr.resolve_left (Option.some_ne_none e')).symm

theorem visiting_explained {r : Run ω} {visit : Cursor p → ω → ω} {w : ω}
    (hc : Cursor.Healthy c) (hclear : (r.loop visit).Unfired (.start c w)) {turns : Nat}
    (hturns : turnsFor c ≤ turns) :
    ∃ rep, r.visiting visit turns c w = some rep ∧ p.Explains 0 rep.outcome := by
  obtain ⟨rep, hrep, -, hexplained⟩ := observed_explained hc hclear hturns
  exact ⟨_, visiting_of_observed hrep, hexplained⟩

theorem gathering_explained {β : Type} {r : Run ω} {visit : Cursor p → ω × β → ω × β} {w : ω}
    {b : β} (hc : Cursor.Healthy c)
    (hclear : ((r.gathering β).loop visit).Unfired (.start c (w, b))) {turns : Nat}
    (hturns : turnsFor c ≤ turns) :
    ∃ rep, (r.gathering β).visiting visit turns c (w, b) = some rep ∧
      p.Explains 0 rep.outcome ∧ (p.hasErrorLeaf = true → rep.world.2 = b) := by
  obtain ⟨rep, hrep, hnone, hexplained⟩ := observed_explained hc hclear hturns
  exact ⟨_, visiting_of_observed hrep, hexplained,
    fun hfault => gathered_of_unvisited hrep (hnone hfault)⟩

/-- What `first` does at a result. -/
def keep {σ : Type} [Operator σ α] (it : σ) (w : ω × Option α) : ω × Option α :=
  onResult (fun x (w, _) => (w, some x)) it w

/-- **Errors are never invented and come with no results.**  Take a tree that is newly built, or
of which anything was asked under contexts that show nothing, and any run over it whose context
does not fire.  If the tree has an error leaf anywhere, nothing is visited; and an error that
the run returns, in whichever flavour, is that of one of the tree's error leaves. -/
theorem errors_come_from_leaves (p : BasicPlan α) {c : Cursor p}
    (hc : Operator.Leads Request.Clear (Cursor.start p) c) (r : Run ω) (w : ω) {turns : Nat}
    (hturns : turnsFor c ≤ turns) :
    (∀ visit : Cursor p → ω → ω, (r.loop visit).Unfired (.start c w) →
      ∃ rep, r.observed visit turns c w = some rep ∧
        (p.hasErrorLeaf = true → rep.world.2 = []) ∧
        ∀ e, rep.outcome = .error e → e ∈ p.faults) ∧
    (∀ f : α → ω → ω, (r.loop (onResult f)).Unfired (.start c w) →
      ∃ rep, r.each f turns c w = some rep ∧ p.Explains () rep.outcome) ∧
    (∀ f : Bindings α → ω → ω, (r.loop (onTags f)).Unfired (.start c w) →
      ∃ rep, r.eachTagged f turns c w = some rep ∧ p.Explains () rep.outcome) ∧
    ((r.loop fun _ w => w).Unfired (.start c w) →
      ∃ rep, r.count turns c w = some rep ∧ p.Explains 0 rep.outcome) ∧
    (((r.gathering (List α)).loop gather).Unfired (.start c (w, [])) →
      ∃ rep, r.all turns c w = some rep ∧ p.Explains [] rep.outcome) ∧
    ((((r.withLimit (limitOfFirst r.options.limit)).gathering (Option α)).loop keep).Unfired
        (.start c (w, none)) →
      ∃ rep, r.first turns c w = some rep ∧ p.Explains none rep.outcome) := by
  have hhealthy := Cursor.healthy_of_leads hc
  refine ⟨fun visit hclear => ?_, fun f hclear => ?_, fun f hclear => ?_,
    fun hclear => visiting_explained hhealthy hclear hturns, fun hclear => ?_, fun hclear => ?_⟩
  · obtain ⟨rep, hrep, hnone, hexplained⟩ := observed_explained hhealthy hclear hturns
    refine ⟨rep, hrep, hnone, fun e he => ?_⟩
    rw [he] at hexplained
    exact hexplained
  · obtain ⟨rep, hrep, hexplained⟩ := visiting_explained hhealthy hclear hturns
    exact ⟨_, by rw [each, hrep]; rfl, hexplained.map fun _ => rfl⟩
  · obtain ⟨rep, hrep, hexplained⟩ := visiting_explained hhealthy hclear hturns
    exact ⟨_, by rw [eachTagged, hrep]; rfl, hexplained.map fun _ => rfl⟩
  · obtain ⟨rep, hrep, hexplained, hnone⟩ := gathering_explained hhealthy hclear hturns
    exact ⟨_, congrArg (Option.map (Report.reading Prod.fst Prod.snd)) hrep,
      hexplained.map hnone⟩
  · obtain ⟨rep, hrep, hexplained, hnone⟩ := gathering_explained hhealthy hclear hturns
    exact ⟨_, congrArg (Option.map (Report.reading Prod.fst Prod.snd)) hrep,
      hexplained.map hnone⟩

/-- The intersection that a step has stopped at its fault, rewound. -/
def afterFault : Cursor shownError :=
  Request.afterAll [.next .clear, .rewind] (Cursor.start shownError)

/-- A run over it returns the error of its leaf again, and one over a tree that hides its fault
returns nothing. -/
theorem errors_come_from_leaves_afterFault :
    Operator.Leads Request.Clear (Cursor.start shownError) afterFault ∧ turnsFor afterFault ≤ 4 ∧
    (∃ rep, (Run.new fun w : Unit => (.clear, w)).observed (fun _ w => w) 4 afterFault () =
        some rep ∧ rep.world.2 = [] ∧
      ∀ e, rep.outcome = .error e → e ∈ [QueryError.backend "down"]) ∧
    ∃ rep, (Run.new fun w : Unit => (.clear, w)).all 4 (Cursor.start hiddenError) () = some rep ∧
      hiddenError.Explains [] rep.outcome := by
  have hleads : Operator.Leads Request.Clear (Cursor.start shownError) afterFault := by
    refine Operator.Leads.refl.requests fun q hq => ?_
    simp only [List.mem_cons, List.not_mem_nil, or_false] at hq
    rcases hq with rfl | rfl <;> rfl
  have hturns : turnsFor afterFault ≤ 4 := by decide
  obtain ⟨hshown, -⟩ := errors_come_from_leaves shownError hleads
    (Run.new fun w : Unit => (.clear, w)) () hturns
  obtain ⟨rep, hrep, hnone, hfrom⟩ :=
    hshown (fun _ w => w) (Loop.unfired_of_look (fun _ => rfl) _)
  have hturns' : turnsFor (Cursor.start hiddenError) ≤ 4 := by decide
  obtain ⟨-, -, -, -, hall, -⟩ := errors_come_from_leaves hiddenError .refl
    (Run.new fun w : Unit => (.clear, w)) () hturns'
  exact ⟨hleads, hturns, ⟨rep, hrep, hnone rfl, hfrom⟩,
    hall (Loop.unfired_of_look (fun _ => rfl) _)⟩

end Run

end QueryPlan
