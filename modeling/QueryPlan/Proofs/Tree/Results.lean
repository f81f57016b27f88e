import QueryPlan.Proofs.Run.Account
import QueryPlan.Proofs.Tree.Stepping

/-!
# What a run over a plan tree answers

Runs over newly built trees under contexts that do not fire.  What is to come of a tree are the
results of the rows ahead, and every turn of a run uses up a piece of the work there is.

* `Cursor.next_moved`, `Cursor.next_over`, `Cursor.nextPath_moved`, `Cursor.nextPath_over`
  — what a move does to the results to come and to the work.
* `Cursor.unrolls` — so the results visited and those to come are the account of a run.
* `Run.observed_tree` — the whole run: the results it visits and the error it reports.
* `Run.run_visits_rows` — over a newly built tree: **the meaning of a whole run**.
-/

namespace QueryPlan

/-! ## Results to come -/

namespace Cursor

variable {α : Type} [Item α] {p : BasicPlan α}

/-- The results that a run has still to visit, if its limit leaves room for them. -/
def toCome (paths : Bool) (phase : Phase) (c : Cursor p) : List (Option α) :=
  match phase with
  | .results => (Plan.visitsOf paths (ahead c)).map some
  | .paths => List.replicate (waysLeft c) (result c) ++ (Plan.visitsOf paths (ahead c)).map some

theorem toCome_results {paths : Bool} {c : Cursor p} :
    toCome paths .results c = (Plan.visitsOf paths (ahead c)).map some := rfl

theorem toCome_paths {paths : Bool} {c : Cursor p} : toCome paths .paths c =
    List.replicate (waysLeft c) (result c) ++ toCome paths .results c := rfl

/-- The work that a run has still to do, in turns. -/
def work (phase : Phase) (c : Cursor p) : Nat :=
  match phase with
  | .results => turnsOf ((ahead c).map Row.paths)
  | .paths => waysLeft c + 1 + turnsOf ((ahead c).map Row.paths)

theorem work_results {c : Cursor p} : work .results c = turnsOf ((ahead c).map Row.paths) := rfl

theorem work_paths {c : Cursor p} :
    work .paths c = waysLeft c + 1 + work .results c := rfl

theorem next_moved {c c' : Cursor p} (hc : Healthy c) (h : next .clear c = (true, c'))
    (paths : Bool) :
    Healthy c' ∧ toCome paths .results c = result c' :: toCome paths (phaseOf paths) c' ∧
      work (phaseOf paths) c' < work .results c := by
  obtain ⟨hc', hs⟩ := next_stepsTo c hc
  rw [h] at hc' hs
  cases ha : ahead c with
  | nil =>
    rw [ha] at hs
    cases hs.1
  | cons row rest =>
    rw [ha] at hs
    obtain ⟨-, ha', hres, hways⟩ := hs
    dsimp only at ha' hres hways
    have hpos : 0 < row.paths := Nat.lt_of_lt_of_le Nat.zero_lt_one (Nat.le_max_left 1 _)
    have hwork : work .results c = row.paths + 1 + work .results c' := by
      rw [work_results, work_results, ha, ha']
      rfl
    refine ⟨hc', ?_, ?_⟩
    · cases paths with
      | false =>
        rw [phaseOf_false, toCome_results, toCome_results, ha, ha', hres,
          Plan.visitsOf_cons_false, List.map_cons]
      | true =>
        rw [phaseOf_true, toCome_paths, toCome_results, toCome_results, ha, ha', hres, hways,
          Plan.visitsOf_cons_true, List.map_append, List.map_replicate, ← List.cons_append,
          ← List.replicate_succ, Nat.sub_add_cancel hpos]
    · cases paths with
      | false =>
        rw [phaseOf_false, hwork]
        omega
      | true =>
        rw [phaseOf_true, work_paths, hways, hwork]
        omega

theorem next_over {c c' : Cursor p} (hc : Healthy c) (h : next .clear c = (false, c'))
    (paths : Bool) :
    Healthy c' ∧ toCome paths .results c = [] ∧ err c' = p.shownFault := by
  obtain ⟨hc', hs⟩ := next_stepsTo c hc
  rw [h] at hc' hs
  cases ha : ahead c with
  | nil =>
    rw [ha] at hs
    exact ⟨hc', by rw [toCome_results, ha]; rfl, hs.2.2⟩
  | cons row rest =>
    rw [ha] at hs
    cases hs.1

theorem nextPath_moved {c c' : Cursor p} (hc : Healthy c) (h : nextPath .clear c = (true, c'))
    (paths : Bool) :
    Healthy c' ∧ toCome paths .paths c = result c' :: toCome paths .paths c' ∧
      work .paths c' < work .paths c := by
  obtain ⟨hc', ha, hr, hyes, hw⟩ := nextPath_takesWay c hc
  rw [h] at hc' ha hr hyes hw
  dsimp only at hc' ha hr hyes hw
  have hpos : 0 < waysLeft c := by simpa using hyes.symm
  refine ⟨hc', ?_, ?_⟩
  · rw [toCome_paths, toCome_paths, toCome_results, toCome_results, ha, hr, hw,
      ← List.cons_append, ← List.replicate_succ, Nat.sub_add_cancel hpos]
  · rw [work_paths, work_paths, work_results, work_results, ha, hw]
    omega

theorem nextPath_over {c c' : Cursor p} (hc : Healthy c) (h : nextPath .clear c = (false, c'))
    (paths : Bool) :
    Healthy c' ∧ toCome paths .paths c = toCome paths .results c' ∧
      work .results c' < work .paths c := by
  obtain ⟨hc', ha, -, hyes, -⟩ := nextPath_takesWay c hc
  rw [h] at hc' ha hyes
  dsimp only at hc' ha hyes
  have hzero : waysLeft c = 0 := by simpa using hyes.symm
  refine ⟨hc', ?_, ?_⟩
  · rw [toCome_paths, toCome_results, toCome_results, ha, hzero]
    rfl
  · rw [work_paths, work_results, work_results, ha, hzero]
    omega

/-- **The rows ahead are what is to come of a healthy tree.** -/
theorem unrolls (paths : Bool) :
    Operator.Unrolls paths Healthy (Operator.result : Cursor p → Option α) (toCome paths) where
  next_moved h hm := by
    obtain ⟨hc, hcome, -⟩ := next_moved h hm paths
    exact ⟨hc, hcome⟩
  next_over h hm := (next_over h hm paths).2.1
  nextPath_moved h hm := by
    obtain ⟨hc, hcome, -⟩ := nextPath_moved h hm paths
    exact ⟨hc, hcome⟩
  nextPath_over h hm := by
    obtain ⟨hc, hcome, -⟩ := nextPath_over h hm paths
    exact ⟨hc, hcome⟩

/-! ## Newly built trees -/

omit [Item α] in
theorem firstErr_startAll (ps : List (BasicPlan α)) :
    firstErr (startAll ps) = ps.findSome? Plan.leafFault := by
  induction ps with
  | nil => rfl
  | cons p ps ih =>
    rw [startAll_cons, firstErr_cons, ih, List.findSome?_cons]
    cases p with
    | custom n => cases n
    | _ => rfl

omit [Item α] in
theorem healthy_start (p : BasicPlan α) : Healthy (start p) := by
  induction p using BasicPlan.induct with
  | null uid => trivial
  | error uid e => trivial
  | fixed uid leaf => exact ⟨rfl, fun h => by cases h⟩
  | probe uid p os ih _ => exact ⟨ih, firstErr_startAll os, Or.inl rfl⟩

theorem ahead_start (p : BasicPlan α) : ahead (start p) = p.rows := by
  induction p using BasicPlan.induct with
  | null uid => rfl
  | error uid e => rfl
  | fixed uid leaf => rfl
  | probe uid p os ih _ => rw [start_probe, ahead_probe, ih, Plan.rows_probe]

/-- Fewer rows take fewer turns. -/
theorem turnsOf_le_of_sublist {xs ys : List Nat} (h : xs.Sublist ys) :
    turnsOf xs ≤ turnsOf ys := by
  induction h with
  | slnil => exact Nat.le_refl _
  | cons y _ ih => exact Nat.le_trans ih (Nat.le_add_left _ _)
  | cons_cons y _ ih => exact Nat.add_le_add_left ih _

/-- The work before a run is within the turns it is given. -/
theorem work_lt_turnsFor (c : Cursor p) : work .results c < turnsFor c := by
  have hle : work .results c ≤ turnsOf (pending c) :=
    turnsOf_le_of_sublist (ahead_sublist_pending c)
  exact Nat.lt_of_le_of_lt hle (Nat.lt_add_of_pos_right (by decide))

end Cursor

/-! ## Whole runs -/

namespace Run

variable {α ω : Type} [Item α] {p : BasicPlan α} {r : Run ω} {visit : Cursor p → ω → ω}

/-- The work that a run has still to do. -/
def workLeft (s : Stand (Recorded (Cursor p)) (ω × List (Recorded (Cursor p)))) : Nat :=
  Cursor.work s.phase s.it.node

/-- **A turn that goes on uses up work.** -/
theorem work_of_turn {s s' : Stand (Recorded (Cursor p)) (ω × List (Recorded (Cursor p)))}
    (hs : Cursor.Healthy s.it.node) (hclear : (r.watched visit).handed s = .clear)
    (ht : (r.watched visit).turn s = .go s') : workLeft s' < workLeft s := by
  obtain ⟨phase, it, w, n⟩ := s
  rcases watched_turn_clear hclear ht with ⟨hm, hs'⟩ | ⟨rfl, hm, hs'⟩
  · rw [hs']
    cases phase with
    | results => exact (Cursor.next_moved hs hm r.options.paths).2.2
    | paths => exact (Cursor.nextPath_moved hs hm r.options.paths).2.2
  · rw [hs']
    exact (Cursor.nextPath_over hs hm r.options.paths).2.2

/-- **Unless it ends at the limit, a run reports the fault of the plan.** -/
theorem fault_of_halt {s : Stand (Recorded (Cursor p)) (ω × List (Recorded (Cursor p)))}
    {h : Halt (Recorded (Cursor p)) (ω × List (Recorded (Cursor p)))}
    (hs : Cursor.Healthy s.it.node)
    (hclear : r.options.reached s.count = false →
      (r.watched visit).seen s = .clear ∧ (r.watched visit).handed s = .clear)
    (ht : (r.watched visit).turn s = .halt h) :
    (r.options.reached s.count = false → h.err = p.shownFault) ∧
      (h.err = none ∨ h.err = p.shownFault) := by
  obtain ⟨phase, it, w, n⟩ := s
  rcases Loop.turn_eq_halt ht with ⟨hr, rfl⟩ | ⟨hr, e, he, rfl⟩ | ⟨hr, -, hno, hp, rfl⟩
  · have hr' : r.options.reached n = true := hr
    refine ⟨fun hr'' => ?_, Cursor.err_of_healthy hs⟩
    rw [hr'] at hr''
    cases hr''
  · rw [(hclear hr).1] at he
    cases he
  · subst hp
    rw [Loop.tried, Recorded.move_eq, (hclear hr).2] at hno ⊢
    dsimp only at hno ⊢
    rcases hm : Operator.move .results .clear it.node with ⟨yes, c⟩
    rw [hm] at hno
    obtain rfl : yes = false := hno
    obtain ⟨-, -, herr⟩ := Cursor.next_over hs hm r.options.paths
    exact ⟨fun _ => herr, Or.inr herr⟩

variable {c : Cursor p} {w : ω}

/-- **A whole run over a tree.**  If the context does not fire, the run ends, has visited the
rows ahead as far as its limit leaves room for them, and reports nothing but the fault of
the plan; without a limit it does report it. -/
theorem observed_tree (hc : Cursor.Healthy c) (hclear : (r.loop visit).Unfired (.start c w))
    {turns : Nat} (hturns : turnsFor c ≤ turns) :
    ∃ e, (r.watched visit).haltFrom? turns (watchedStart c w) = some e ∧
      e.world.2.map Operator.result =
        (r.options.cut (Plan.visitsOf r.options.paths (Cursor.ahead c))).map some ∧
      (r.options.limit = none → e.err = p.shownFault) ∧
      (e.err = none ∨ e.err = p.shownFault) := by
  have hclear' : (r.watched visit).Unfired (watchedStart c w) := (r.watches visit).unfired hclear
  have hlt : workLeft (watchedStart c w) < turns :=
    Nat.lt_of_lt_of_le (Cursor.work_lt_turnsFor c) hturns
  have hdown : ∀ t t', (r.watched visit).Reaches (watchedStart c w) t →
      (r.watched visit).turn t = .go t' → workLeft t' < workLeft t := by
    intro t t' ht hturn
    obtain ⟨hr, -, -⟩ := Loop.turn_eq_go hturn
    obtain ⟨hh, -⟩ := account_of_reaches (Cursor.unrolls _) hc hclear' ht
    exact work_of_turn hh (hclear' t ht hr).2 hturn
  obtain ⟨e, he⟩ := Loop.exists_haltFrom?_of_lt workLeft hdown hlt
  obtain ⟨t, ht, hhalt⟩ := Loop.reaches_of_haltFrom? he
  obtain ⟨hh, -⟩ := account_of_reaches (Cursor.unrolls _) hc hclear' ht
  obtain ⟨hfault, herr⟩ := fault_of_halt hh (hclear' t ht) hhalt
  have hvisits : e.world.2.map Operator.result =
      r.options.cut (Cursor.toCome r.options.paths .results c) :=
    (Cursor.unrolls r.options.paths).visits_of_haltFrom? hc hclear' he
  refine ⟨e, he, ?_, fun hl => hfault (by rw [RunOptions.reached, hl]), herr⟩
  rw [hvisits, Cursor.toCome_results, RunOptions.cut_map]

/-- A run over a newly built tree visits the rows of the plan, as far as its limit leaves room
for them, and answers how many they are, unless the plan shows a fault; at its limit the run
need not have come upon that fault. -/
theorem observed_start (hclear : (r.loop visit).Unfired (.start (Cursor.start p) w))
    {turns : Nat} (hturns : turnsFor (Cursor.start p) ≤ turns) :
    ∃ rep, r.observed visit turns (Cursor.start p) w = some rep ∧
      rep.world.2.map Operator.result = (r.options.cut (p.visits r.options.paths)).map some ∧
      (r.options.limit = none →
        rep.outcome = p.answer (r.options.cut (p.visits r.options.paths)).length) ∧
      (rep.outcome = .ok (r.options.cut (p.visits r.options.paths)).length ∨
        rep.outcome = p.answer (r.options.cut (p.visits r.options.paths)).length) := by
  obtain ⟨e, he, hvisits, hfault, herr⟩ := observed_tree (Cursor.healthy_start p) hclear hturns
  have hahead : Plan.visitsOf r.options.paths (Cursor.ahead (Cursor.start p)) =
      p.visits r.options.paths := by
    rw [Cursor.ahead_start]
    rfl
  rw [hahead] at hvisits
  have hobs : r.observed visit turns (Cursor.start p) w =
      some (Report.ofHalt (Operator.uid (Cursor.start p)) e) := by rw [observed_eq, he]; rfl
  have hlen := length_visits_of_haltFrom? he
  have hcount : e.count = (r.options.cut (p.visits r.options.paths)).length := by
    rw [← hlen]
    simpa using congrArg List.length hvisits
  refine ⟨_, hobs, by rw [ofHalt_world]; exact hvisits, fun hl => ?_, herr.imp ?_ ?_⟩
  · rw [ofHalt_outcome, hfault hl, hcount]
    rfl
  · intro hnone
    rw [ofHalt_outcome, hnone, hcount]
  · intro hshown
    rw [ofHalt_outcome, hshown, hcount]
    rfl

/-- **The meaning of a whole run.**  A run over a newly built tree whose context does not fire
visits the rows of the plan in order, each as often as there are ways of reaching it if it
was told to, up to the limit; and if the tree has no error leaf, the run answers how many
results that were. -/
theorem run_visits_rows (r : Run ω) (p : BasicPlan α) (visit : Cursor p → ω → ω) (w : ω)
    (hclear : (r.loop visit).Unfired (.start (Cursor.start p) w)) {turns : Nat}
    (hturns : turnsFor (Cursor.start p) ≤ turns) :
    ∃ rep, r.observed visit turns (Cursor.start p) w = some rep ∧
      rep.world.2.map Operator.result = (r.options.cut (p.visits r.options.paths)).map some ∧
      (p.hasErrorLeaf = false →
        rep.outcome = .ok (r.options.cut (p.visits r.options.paths)).length) := by
  obtain ⟨rep, hobs, hvisits, -, hanswer⟩ := observed_start hclear hturns
  refine ⟨rep, hobs, hvisits, fun hfault => ?_⟩
  rwa [Plan.answer, Plan.shownFault_eq_none hfault, or_self] at hanswer

/-- An intersection with one result, which can be reached in three ways. -/
def threeWays : BasicPlan Ref :=
  .probe ⟨2⟩ (.fixed ⟨0⟩ (.ofRows [⟨⟨[1]⟩, []⟩, ⟨⟨[2]⟩, [⟨[7]⟩, ⟨[8]⟩, ⟨[9]⟩]⟩]))
    [.fixed ⟨1⟩ (.ofValues [⟨[2]⟩])]

/-- With paths and a limit of two, a run over it visits that result twice. -/
theorem run_visits_threeWays_twice :
    turnsFor (Cursor.start threeWays) ≤ 8 ∧
    ∃ rep, (Run.mk ⟨some 2, true⟩ fun w : Unit => (.clear, w)).observed (fun _ w => w) 8
        (Cursor.start threeWays) () = some rep ∧
      rep.world.2.map Operator.result = [some ⟨[2]⟩, some ⟨[2]⟩] ∧ rep.outcome = .ok 2 := by
  have hturns : turnsFor (Cursor.start threeWays) ≤ 8 := by decide
  obtain ⟨rep, hrep, hvisits, hcount⟩ :=
    run_visits_rows (Run.mk ⟨some 2, true⟩ fun w : Unit => (.clear, w)) _ (fun _ w => w) ()
      (Loop.unfired_of_look (fun _ => rfl) _) hturns
  refine ⟨hturns, rep, hrep, hvisits.trans ?_, (hcount rfl).trans ?_⟩
  · decide
  · rfl

end Run

end QueryPlan
