import Mathlib.Data.List.Forall2
import Mathlib.Data.List.Perm.Basic
import QueryPlan.Proofs.Run.Steady
import QueryPlan.Proofs.Tree.Results

/-!
# The order of an intersection's other children

An intersection tests a candidate in its other children one after the other and stops at the
first that says no, and it looks for errors in the same order.  So the order decides which
children are asked at all and which error is reported, but neither what is found nor whether
there is an error to report.

* `Plan.Reordered` — plans that differ in the order of such children, at any depth.
* `Run.observed_start_shows` — what a run over a newly built tree comes to under any context
  that does not change, as a function of the plan.
* `Plan.Reordered.rows`, `Plan.Reordered.shownFault`, `Plan.Reordered.size`,
  `Plan.Reordered.containsCost`, `Plan.Reordered.nextCost` — the order shows in none of them.
* `Run.reordered_tree_answers` — **the order does not matter.**
-/

namespace QueryPlan

variable {α : Type}

/-! ## Runs over newly built trees under a context that does not change -/

namespace Plan

variable [Item α]

/-- The values that a run over the newly built tree visits if its context shows this signal all
the time. -/
def visitsUnder (options : RunOptions) (sig : Signal) (p : BasicPlan α) : List α :=
  match sig with
  | .clear => options.cut (p.visits options.paths)
  | _ => []

theorem visitsUnder_of_reached {options : RunOptions} (hr : options.reached 0 = true)
    {sig : Signal} {p : BasicPlan α} : p.visitsUnder options sig = [] := by
  cases sig with
  | clear => exact RunOptions.room_of_reached hr _
  | _ => rfl

theorem visitsUnder_of_fired {options : RunOptions} {sig : Signal} {e : QueryError}
    (he : sig.error? = some e) {p : BasicPlan α} : p.visitsUnder options sig = [] := by
  cases sig with
  | clear => cases he
  | _ => rfl

/-- The error that stops such a run: that of the root if the run may visit nothing, and otherwise
the one the context shows or the fault that the plan shows. -/
def stopUnder (options : RunOptions) (sig : Signal) (p : BasicPlan α) : Option QueryError :=
  if options.reached 0 then p.leafFault else sig.error?.or p.shownFault

end Plan

namespace Cursor

theorem err_start (p : BasicPlan α) : err (start p) = p.leafFault := by
  cases p with
  | custom n => cases n
  | _ => rfl

end Cursor

namespace Run

variable {ω : Type} [Item α] {p : BasicPlan α}

/-- Where a run whose context does not fire ends before its limit is reached, it reports the
fault that the plan shows. -/
theorem err_of_unreached {r : Run ω} {visit : Cursor p → ω → ω} {c : Cursor p} {w : ω}
    (hc : Cursor.Healthy c) (hclear : (r.loop visit).Unfired (.start c w)) {turns : Nat}
    {e : Halt (Recorded (Cursor p)) (ω × List (Recorded (Cursor p)))}
    (he : (r.watched visit).haltFrom? turns (watchedStart c w) = some e)
    (hr : r.options.reached e.count = false) : e.err = p.shownFault := by
  have hclear' : (r.watched visit).Unfired (watchedStart c w) := (r.watches visit).unfired hclear
  obtain ⟨s, hs, ht⟩ := Loop.reaches_of_haltFrom? he
  obtain ⟨hhealthy, -⟩ := account_of_reaches (Cursor.unrolls _) hc hclear' hs
  obtain ⟨hfault, -⟩ := fault_of_halt hhealthy (hclear' s hs) ht
  rw [Loop.count_of_turn_eq_halt ht] at hr
  exact hfault hr

/-- The still run over a newly built tree under a context that shows nothing, if it may visit
something. -/
theorem still_start_clear {options : RunOptions} (hr : options.reached 0 = false) {turns : Nat}
    (hturns : turnsFor (Cursor.start p) ≤ turns) :
    ∃ e, (stillLoop options .clear).haltFrom? turns (watchedStart (Cursor.start p) ()) = some e ∧
      e.world.2.map Operator.result = (options.cut (p.visits options.paths)).map some ∧
      e.err = p.shownFault := by
  have hclear : ((still options .clear).loop fun (_ : Cursor p) w => w).Unfired
      (.start (Cursor.start p) ()) := Loop.unfired_of_look (fun _ => rfl) _
  obtain ⟨e, he, hahead, -, herr⟩ := observed_tree (Cursor.healthy_start p) hclear hturns
  rw [Cursor.ahead_start] at hahead
  have hvisits : e.world.2.map Operator.result =
      (options.cut (p.visits options.paths)).map some := hahead
  refine ⟨e, he, hvisits, ?_⟩
  cases hfault : p.shownFault with
  | none => rwa [hfault, or_self] at herr
  | some f =>
    -- a plan that shows a fault has no rows, so the run does not come near its limit
    have hnone : p.visits options.paths = [] :=
      Plan.visits_eq_nil (Plan.hasErrorLeaf_of_shownFault hfault) _
    have hzero : e.count = 0 := by
      rw [hnone, RunOptions.cut, RunOptions.room_nil, List.map_nil, List.map_eq_nil_iff] at hvisits
      rw [← length_visits_of_haltFrom? he, hvisits, List.length_nil]
    rw [← hfault]
    exact err_of_unreached (Cursor.healthy_start p) hclear he (hzero ▸ hr)

/-- The still run over a newly built tree. -/
theorem still_start (options : RunOptions) (sig : Signal) {turns : Nat}
    (hturns : turnsFor (Cursor.start p) ≤ turns) :
    ∃ e, (stillLoop options sig).haltFrom? turns (watchedStart (Cursor.start p) ()) = some e ∧
      e.world.2.map Operator.result = (p.visitsUnder options sig).map some ∧
      e.err = p.stopUnder options sig := by
  obtain ⟨n, rfl⟩ : ∃ n, turns = n + 1 := Nat.exists_eq_succ_of_ne_zero fun hzero => by
    rw [hzero] at hturns
    cases hturns
  have hstart (e : Halt (Recorded (Cursor p)) (Unit × List (Recorded (Cursor p))))
      (ht : (stillLoop options sig).turn (watchedStart (Cursor.start p) ()) = .halt e) :
      (stillLoop options sig).haltFrom? (n + 1) (watchedStart (Cursor.start p) ()) = some e := by
    rw [Loop.haltFrom?_succ, ht]
  cases hr : options.reached 0 with
  | true =>
    refine ⟨_, hstart _ (Loop.turn_of_reached hr), ?_, ?_⟩
    · rw [Plan.visitsUnder_of_reached hr]
      rfl
    · rw [Plan.stopUnder, if_pos hr]
      exact Cursor.err_start p
  | false =>
    have hunreached : ¬ options.reached 0 = true := by
      rw [hr]
      decide
    cases he : sig.error? with
    | some f =>
      refine ⟨_, hstart _ (Loop.turn_of_fired hr he), ?_, ?_⟩
      · rw [Plan.visitsUnder_of_fired he]
        rfl
      · rw [Plan.stopUnder, if_neg hunreached, he]
        rfl
    | none =>
      obtain rfl := Signal.error?_eq_none_iff.1 he
      obtain ⟨e, hend, hvisits, herr⟩ := still_start_clear hr hturns
      refine ⟨e, hend, hvisits, ?_⟩
      rw [Plan.stopUnder, if_neg hunreached]
      exact herr

/-- **What a run over a newly built tree comes to** under a context that does not change. -/
theorem observed_start_shows {r : Run ω} {sig : Signal} {visit : Cursor p → ω → ω} {w : ω}
    (hshows : (r.loop visit).Shows sig (.start (Cursor.start p) w)) {turns : Nat}
    (hturns : turnsFor (Cursor.start p) ≤ turns) :
    ∃ rep, r.observed visit turns (Cursor.start p) w = some rep ∧
      rep.world.2.map Operator.result = (p.visitsUnder r.options sig).map some ∧
      rep.outcome = Report.verdict (p.stopUnder r.options sig)
        (p.visitsUnder r.options sig).length := by
  obtain ⟨e, he, hvisits, hstop⟩ := still_start r.options sig hturns
  obtain ⟨rep, hrep, htells⟩ := exists_observed_of_halt hshows he
  refine ⟨rep, hrep, by rw [htells.visits]; exact hvisits, ?_⟩
  have hcount : e.count = (p.visitsUnder r.options sig).length := by
    rw [← length_visits_of_haltFrom? he]
    simpa using congrArg List.length hvisits
  rw [htells.outcome, hstop, hcount]

end Run

/-! ## Reordered plans -/

namespace Plan

/-- Do these plans differ in nothing but the order of the other children of intersections, at any
depth, and the identities of the nodes? -/
inductive Reordered : BasicPlan α → BasicPlan α → Prop where
  /-- Two nodes without results. -/
  | null (uid uid' : Uid) : Reordered (.null uid) (.null uid')
  /-- Two faults. -/
  | error (uid uid' : Uid) (e : QueryError) : Reordered (.error uid e) (.error uid' e)
  /-- Two leaves with the same rows. -/
  | fixed (uid uid' : Uid) (leaf : RowSet α) : Reordered (.fixed uid leaf) (.fixed uid' leaf)
  /-- Two intersections: the other children of the one, in another order, are those of the other
  up to the order in them. -/
  | probe (uid uid' : Uid) {p p' : BasicPlan α} {os ms os' : List (BasicPlan α)}
      (hp : Reordered p p') (hperm : os.Perm ms) (hos : List.Forall₂ Reordered ms os') :
      Reordered (.probe uid p os) (.probe uid' p' os')

theorem allHave_eq_all [Item α] {x : α} {ps : List (BasicPlan α)} :
    allHave x ps = (ps.map (has x)).all id := by
  induction ps with
  | nil => rfl
  | cons p ps ih => rw [allHave_cons, ih, List.map_cons, List.all_cons, id]

theorem meetSize_perm {first : Size} {others others' : List Size} (h : others.Perm others') :
    Cursor.meetSize first others = Cursor.meetSize first others' := by
  have hsmallest : others.foldl (fun n s => min n s.value) first.value =
      others'.foldl (fun n s => min n s.value) first.value :=
    h.foldl_eq' (fun s _ t _ n => by omega) _
  have hany : (first :: others).any Size.isExactZero = (first :: others').any Size.isExactZero :=
    (h.cons first).any_eq
  unfold Cursor.meetSize
  rw [hsmallest, hany]

theorem sizes_startAll (ps : List (BasicPlan α)) :
    Cursor.sizes (Cursor.startAll ps) = ps.map fun p => Cursor.size (Cursor.start p) := by
  induction ps with
  | nil => rfl
  | cons p ps ih =>
    rw [List.map_cons, ← ih]
    rfl

theorem probeCost_startAll (ps : List (BasicPlan α)) :
    Cursor.probeCost (Cursor.startAll ps) =
      (ps.map fun p => (Cursor.stats (Cursor.start p)).containsCost).foldr (· + ·) 0 := by
  induction ps with
  | nil => rfl
  | cons p ps ih =>
    rw [List.map_cons, List.foldr_cons, ← ih]
    rfl

/-- The costs of tests in several children add up, in whatever order. -/
theorem probeCost_perm {os os' : List (BasicPlan α)}
    (h : (os.map fun o => (Cursor.stats (Cursor.start o)).containsCost).Perm
      (os'.map fun o => (Cursor.stats (Cursor.start o)).containsCost)) :
    Cursor.probeCost (Cursor.startAll os) = Cursor.probeCost (Cursor.startAll os') := by
  rw [probeCost_startAll, probeCost_startAll]
  exact h.foldr_eq' (fun x _ y _ n => Int.add_left_comm y x n) 0

/-- What does not see the order in a child has the same values over the children, in some order. -/
theorem map_perm_of_reordered {β : Type} {f : BasicPlan α → β} {os ms os' : List (BasicPlan α)}
    (hf : ∀ o ∈ os, ∀ o', Reordered o o' → f o = f o') (hperm : os.Perm ms)
    (hos : List.Forall₂ Reordered ms os') : (os.map f).Perm (os'.map f) := by
  have hms : ∀ m ∈ ms, ∀ o', Reordered m o' → f m = f o' :=
    fun m hm => hf m (hperm.mem_iff.2 hm)
  have hvalues : List.Forall₂ (fun m o' => f m = f o') ms os' :=
    ((List.forall₂_and_left ms os').2 ⟨hms, hos⟩).imp fun _ _ h => h.1 _ h.2
  have hmap : ms.map f = os'.map f := by
    rwa [← List.forall₂_eq_eq_eq, List.forall₂_map_left_iff, List.forall₂_map_right_iff]
  rw [← hmap]
  exact hperm.map f

namespace Reordered

/-- A statement about the leaves that goes from the children of an intersection to the
intersection holds of any two such plans. -/
theorem induct {P : ∀ p p' : BasicPlan α, Reordered p p' → Prop}
    (null : ∀ uid uid', P _ _ (.null uid uid'))
    (error : ∀ uid uid' e, P _ _ (.error uid uid' e))
    (fixed : ∀ uid uid' leaf, P _ _ (.fixed uid uid' leaf))
    (probe : ∀ uid uid' (p p' : BasicPlan α) (os ms os' : List (BasicPlan α))
      (hp : Reordered p p') (hperm : os.Perm ms) (hos : List.Forall₂ Reordered ms os'), P _ _ hp →
      (∀ o ∈ os, ∀ o' (ho : Reordered o o'), P _ _ ho) → P _ _ (.probe uid uid' hp hperm hos))
    {p p' : BasicPlan α} (h : Reordered p p') : P p p' h := by
  revert p'
  induction p using BasicPlan.induct with
  | null uid =>
    intro p' h
    cases h
    exact null _ _
  | error uid e =>
    intro p' h
    cases h
    exact error _ _ _
  | fixed uid leaf =>
    intro p' h
    cases h
    exact fixed _ _ _
  | probe uid p os ih ihos =>
    intro p' h
    cases h with
    | probe _ _ hp hperm hos =>
      exact probe _ _ _ _ _ _ _ hp hperm hos (ih hp) fun o ho o' h => ihos o ho h

variable {p p' : BasicPlan α}

theorem leafFault (h : Reordered p p') : p.leafFault = p'.leafFault := by
  cases h <;> rfl

/-- **One of the plans shows a fault exactly if the other does.** -/
theorem shownFault (h : Reordered p p') : p.shownFault.isSome = p'.shownFault.isSome := by
  induction h using Reordered.induct with
  | null | error | fixed => rfl
  | probe _ _ p p' os ms os' _ hperm hos ih _ =>
    have hfaults := map_perm_of_reordered (fun _ _ _ ho => leafFault ho) hperm hos
    have hany := hfaults.any_eq (f := Option.isSome)
    rw [List.any_map, List.any_map] at hany
    rw [shownFault_probe, shownFault_probe, Option.isSome_or, Option.isSome_or, ih,
      List.isSome_findSome?, List.isSome_findSome?]
    exact congrArg _ hany

/-- The leaves at the end of the chains of first children are the same. -/
theorem pending (h : Reordered p p') :
    Cursor.pending (Cursor.start p) = Cursor.pending (Cursor.start p') := by
  induction h using Reordered.induct with
  | null | error | fixed => rfl
  | probe _ _ p p' os ms os' _ _ _ ih _ =>
    rw [Cursor.start_probe, Cursor.start_probe, Cursor.pending_probe, Cursor.pending_probe, ih]

variable [Item α]

/-- **The plans have the same members** … -/
theorem has (h : Reordered p p') (x : α) : p.has x = p'.has x := by
  induction h using Reordered.induct with
  | null | error | fixed => rfl
  | probe _ _ p p' os ms os' _ hperm hos ih ihos =>
    rw [has_probe, has_probe, ih, allHave_eq_all, allHave_eq_all]
    exact congrArg _ (map_perm_of_reordered ihos hperm hos).all_eq

/-- … and the same rows, in the same order. -/
theorem rows (h : Reordered p p') : p.rows = p'.rows := by
  induction h using Reordered.induct with
  | null | error | fixed => rfl
  | probe _ _ p p' os ms os' _ hperm hos ih _ =>
    rw [rows_probe, rows_probe, ih]
    refine List.filter_congr fun row _ => ?_
    rw [allHave_eq_all, allHave_eq_all]
    exact (map_perm_of_reordered (fun _ _ _ ho => has ho row.value) hperm hos).all_eq

omit [Item α] in
/-- **The plans have the same size** … -/
theorem size (h : Reordered p p') :
    Cursor.size (Cursor.start p) = Cursor.size (Cursor.start p') := by
  induction h using Reordered.induct with
  | null | error | fixed => rfl
  | probe _ _ p p' os ms os' _ hperm hos ih ihos =>
    show Cursor.meetSize _ _ = Cursor.meetSize _ _
    rw [ih, sizes_startAll, sizes_startAll]
    exact meetSize_perm (map_perm_of_reordered ihos hperm hos)

omit [Item α] in
/-- … and the same costs of a test … -/
theorem containsCost (h : Reordered p p') : (Cursor.stats (Cursor.start p)).containsCost =
    (Cursor.stats (Cursor.start p')).containsCost := by
  induction h using Reordered.induct with
  | null | error | fixed => rfl
  | probe _ _ p p' os ms os' _ hperm hos ih ihos =>
    rw [Cursor.start_probe, Cursor.start_probe, Cursor.stats_probe, Cursor.stats_probe]
    dsimp only
    rw [ih, probeCost_perm (map_perm_of_reordered ihos hperm hos)]

omit [Item α] in
/-- … and of a step. -/
theorem nextCost (h : Reordered p p') : (Cursor.stats (Cursor.start p)).nextCost =
    (Cursor.stats (Cursor.start p')).nextCost := by
  induction h using Reordered.induct with
  | null | error | fixed => rfl
  | probe _ _ p p' os ms os' _ hperm hos ih _ =>
    have hprobes := probeCost_perm
      (map_perm_of_reordered (fun _ _ _ ho => containsCost ho) hperm hos)
    rw [Cursor.start_probe, Cursor.start_probe, Cursor.stats_probe, Cursor.stats_probe]
    dsimp only
    rw [ih, hprobes]

/-- Runs over the plans visit the same values. -/
theorem visitsUnder (h : Reordered p p') (options : RunOptions) (sig : Signal) :
    p.visitsUnder options sig = p'.visitsUnder options sig := by
  unfold Plan.visitsUnder Plan.visits
  rw [h.rows]

omit [Item α] in
/-- Both runs are stopped by an error or neither is. -/
theorem stopUnder (h : Reordered p p') (options : RunOptions) (sig : Signal) :
    (p.stopUnder options sig).isSome = (p'.stopUnder options sig).isSome := by
  unfold Plan.stopUnder
  by_cases hr : options.reached 0 = true
  · rw [if_pos hr, if_pos hr, h.leafFault]
  · rw [if_neg hr, if_neg hr, Option.isSome_or, Option.isSome_or, h.shownFault]

end Reordered

end Plan

/-! ## Runs over reordered trees -/

namespace Run

variable {ω ω' : Type} [Item α] {p p' : BasicPlan α}

/-- **The order of an intersection's other children does not matter.**  Take two newly built trees
that differ in nothing else, and a run over each, with the same options and under contexts that
show the same signal all the time.  Both runs end; they visit the same values in the same order,
and both answer the same number or both return an error.  The trees have the same size and the
same costs. -/
theorem reordered_tree_answers (h : p.Reordered p') {r : Run ω} {r' : Run ω'}
    (hoptions : r'.options = r.options) {sig : Signal} {visit : Cursor p → ω → ω}
    {visit' : Cursor p' → ω' → ω'} {w : ω} {w' : ω'}
    (hshows : (r.loop visit).Shows sig (.start (Cursor.start p) w))
    (hshows' : (r'.loop visit').Shows sig (.start (Cursor.start p') w')) {turns : Nat}
    (hturns : turnsFor (Cursor.start p) ≤ turns) :
    (∃ rep rep', r.observed visit turns (Cursor.start p) w = some rep ∧
      r'.observed visit' turns (Cursor.start p') w' = some rep' ∧
      rep.world.2.map Operator.result = rep'.world.2.map Operator.result ∧
      ((∃ n, rep.outcome = .ok n ∧ rep'.outcome = .ok n) ∨
        ∃ e e', rep.outcome = .error e ∧ rep'.outcome = .error e')) ∧
    Operator.size (Cursor.start p) = Operator.size (Cursor.start p') ∧
    (Operator.stats (Cursor.start p)).containsCost =
      (Operator.stats (Cursor.start p')).containsCost ∧
    (Operator.stats (Cursor.start p)).nextCost = (Operator.stats (Cursor.start p')).nextCost := by
  refine ⟨?_, h.size, h.containsCost, h.nextCost⟩
  have hturns' : turnsFor (Cursor.start p') ≤ turns := by
    have hpending : turnsFor (Cursor.start p') = turnsFor (Cursor.start p) :=
      congrArg (fun rows => turnsOf rows + 2) h.pending.symm
    rwa [hpending]
  obtain ⟨rep, hrep, hvisits, houtcome⟩ := observed_start_shows hshows hturns
  obtain ⟨rep', hrep', hvisits', houtcome'⟩ := observed_start_shows hshows' hturns'
  rw [hoptions, ← h.visitsUnder] at hvisits' houtcome'
  refine ⟨rep, rep', hrep, hrep', hvisits.trans hvisits'.symm, ?_⟩
  have hstop := h.stopUnder r.options sig
  cases hs : p.stopUnder r.options sig with
  | none =>
    have hnone : p'.stopUnder r.options sig = none := by
      rw [← Option.not_isSome_iff_eq_none, ← hstop, hs]
      decide
    rw [hs] at houtcome
    rw [hnone] at houtcome'
    exact Or.inl ⟨_, houtcome, houtcome'⟩
  | some e =>
    obtain ⟨e', hs'⟩ : ∃ e', p'.stopUnder r.options sig = some e' := by
      rw [← Option.isSome_iff_exists, ← hstop, hs]
      rfl
    rw [hs] at houtcome
    rw [hs'] at houtcome'
    exact Or.inr ⟨e, e', houtcome, houtcome'⟩

/-- A leaf with two faults beside it. -/
def twoFaults : BasicPlan Ref :=
  .probe ⟨3⟩ (.fixed ⟨0⟩ (.ofValues [⟨[1]⟩]))
    [.error ⟨1⟩ (.backend "down"), .error ⟨2⟩ (.backend "gone")]

/-- The same, with the faults in the other order. -/
def twoFaultsTurned : BasicPlan Ref :=
  .probe ⟨7⟩ (.fixed ⟨4⟩ (.ofValues [⟨[1]⟩]))
    [.error ⟨5⟩ (.backend "gone"), .error ⟨6⟩ (.backend "down")]

/-- Runs over the two return errors, though not the same one. -/
theorem reordered_tree_answers_twoFaults :
    twoFaults.Reordered twoFaultsTurned ∧ turnsFor (Cursor.start twoFaults) ≤ 4 ∧
    (∃ rep rep', (Run.new fun w : Unit => (.clear, w)).observed (fun _ w => w) 4
        (Cursor.start twoFaults) () = some rep ∧
      (Run.new fun w : Unit => (.clear, w)).observed (fun _ w => w) 4
        (Cursor.start twoFaultsTurned) () = some rep' ∧
      rep.world.2.map Operator.result = rep'.world.2.map Operator.result ∧
      ((∃ n, rep.outcome = .ok n ∧ rep'.outcome = .ok n) ∨
        ∃ e e', rep.outcome = .error e ∧ rep'.outcome = .error e')) ∧
    ((Run.new fun w : Unit => (.clear, w)).count 4 (Cursor.start twoFaults) ()).map
      Report.outcome = some (.error (.backend "down")) ∧
    ((Run.new fun w : Unit => (.clear, w)).count 4 (Cursor.start twoFaultsTurned) ()).map
      Report.outcome = some (.error (.backend "gone")) := by
  have hreordered : twoFaults.Reordered twoFaultsTurned :=
    .probe _ _ (.fixed _ _ _) (List.Perm.swap _ _ _)
      (.cons (.error _ _ _) (.cons (.error _ _ _) .nil))
  have hturns : turnsFor (Cursor.start twoFaults) ≤ 4 := by decide
  have hclear (p : BasicPlan Ref) : ((Run.new fun w : Unit => (.clear, w)).loop
      fun (_ : Cursor p) w => w).Shows .clear (.start (Cursor.start p) ()) :=
    Loop.shows_of_look (fun _ => rfl) _
  obtain ⟨hruns, -⟩ :=
    reordered_tree_answers hreordered rfl (hclear twoFaults) (hclear twoFaultsTurned) hturns
  exact ⟨hreordered, hturns, hruns, rfl, rfl⟩

end Run

end QueryPlan
