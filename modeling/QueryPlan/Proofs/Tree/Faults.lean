import QueryPlan.Proofs.Tree.Results

/-!
# Faults of a plan tree

The description of a newly built tree shows every fault in it.  A run over the tree does
not: an intersection reports the errors of its own children, and one that is only tested
for membership takes an error among its children for a no and has none itself.  So a run
sees the faults that the plan shows (`Plan.shownFault`) and takes any other for a lack of
results.

* `hasError_describe_start` — the description has an error exactly if there is an error
  leaf.
* `run_answers` — what the flavours of a run without a limit answer.
* `faulty_run_answers` — on a tree with a fault: the shown fault or, if it shows none, a
  success without results, as `hidden_fault_is_silent` has it.
-/

namespace QueryPlan

variable {α ω : Type} [Item α]

/-! ## Descriptions -/

namespace Cursor

theorem anyHasError_outlines {ps : List (BasicPlan α)}
    (h : ∀ p ∈ ps, (outline (start p)).describe.hasError = p.hasErrorLeaf) :
    Description.anyHasError (Outline.describeAll (outlines (startAll ps))) =
      Plan.anyHasErrorLeaf ps := by
  induction ps with
  | nil => rfl
  | cons p ps ih =>
    have hp := h p List.mem_cons_self
    have hps := ih fun q hq => h q (List.mem_cons_of_mem _ hq)
    rw [startAll_cons, outlines_cons, Plan.anyHasErrorLeaf_cons, ← hp, ← hps]
    rfl

theorem hasError_outline (p : BasicPlan α) :
    (outline (start p)).describe.hasError = p.hasErrorLeaf := by
  induction p using BasicPlan.induct with
  | null uid => rfl
  | error uid e => rfl
  | fixed uid leaf => rfl
  | probe uid p os ih ihos =>
    rw [start_probe, outline_probe, Plan.hasErrorLeaf_probe, ← ih, ← anyHasError_outlines ihos]
    rfl

/-- **The description of a newly built tree has an error** exactly if the tree has an error
leaf. -/
theorem hasError_describe_start (p : BasicPlan α) :
    (Operator.describe (start p)).hasError = p.hasErrorLeaf := by
  rw [← hasError_outline]
  cases p with
  | custom n => cases n
  | _ => rfl

end Cursor

/-! ## Runs without a limit -/

namespace Run

/-- **The flavours of a run** without a limit over a newly built tree answer the fault that
the plan shows, and if it shows none, what they make of the rows. -/
theorem run_answers (p : BasicPlan α) (r : Run ω) (hlim : r.options.limit = none) (w : ω)
    {turns : Nat} (hturns : turnsFor (Cursor.start p) ≤ turns) :
    (∀ f : α → ω → ω, (r.loop (onResult f)).Unfired (.start (Cursor.start p) w) →
      ∃ rep, r.each f turns (Cursor.start p) w = some rep ∧ rep.outcome = p.answer ()) ∧
    (∀ f : Bindings α → ω → ω, (r.loop (onTags f)).Unfired (.start (Cursor.start p) w) →
      ∃ rep, r.eachTagged f turns (Cursor.start p) w = some rep ∧ rep.outcome = p.answer ()) ∧
    ((r.loop fun _ w => w).Unfired (.start (Cursor.start p) w) →
      ∃ rep, r.count turns (Cursor.start p) w = some rep ∧
        rep.outcome = p.answer (p.visits r.options.paths).length) ∧
    (((r.gathering (List α)).loop gather).Unfired (.start (Cursor.start p) (w, [])) →
      ∃ rep, r.all turns (Cursor.start p) w = some rep ∧
        rep.outcome = p.answer (p.visits r.options.paths)) := by
  have hvisiting : ∀ visit : Cursor p → ω → ω,
      (r.loop visit).Unfired (.start (Cursor.start p) w) →
      ∃ rep, r.visiting visit turns (Cursor.start p) w = some rep ∧
        rep.outcome = p.answer (p.visits r.options.paths).length := by
    intro visit hclear
    obtain ⟨rep, hobs, -, hanswer, -⟩ := observed_start hclear hturns
    refine ⟨_, by rw [visiting_eq_observed, hobs]; rfl, ?_⟩
    rw [RunOptions.cut_of_limit_eq_none hlim] at hanswer
    exact hanswer hlim
  refine ⟨fun f hclear => ?_, fun f hclear => ?_, hvisiting _, fun hclear => ?_⟩
  · obtain ⟨rep, hrep, hanswer⟩ := hvisiting _ hclear
    refine ⟨_, by rw [each, hrep]; rfl, ?_⟩
    rw [Report.reading, hanswer, Plan.answer_map]
  · obtain ⟨rep, hrep, hanswer⟩ := hvisiting _ hclear
    refine ⟨_, by rw [eachTagged, hrep]; rfl, ?_⟩
    rw [Report.reading, hanswer, Plan.answer_map]
  · obtain ⟨rep, hobs, hvisits, hanswer, -⟩ := observed_start hclear hturns
    have hcut := RunOptions.cut_of_limit_eq_none hlim (p.visits r.options.paths)
    rw [show (r.gathering (List α)).options = r.options from rfl, hcut] at hvisits hanswer
    have hall : rep.world.1.2 = p.visits r.options.paths := by
      rw [gathered_of_observed hobs]
      simpa [List.filterMap_map] using congrArg (List.filterMap id) hvisits
    have hrun : (r.gathering (List α)).visiting gather turns (Cursor.start p) (w, []) =
        some (rep.map Recorded.node Prod.fst) := by
      rw [visiting_eq_observed, hobs]
      rfl
    refine ⟨_, congrArg (Option.map (Report.reading Prod.fst Prod.snd)) hrun, ?_⟩
    show rep.outcome.map (fun _ => rep.world.1.2) = _
    rw [hanswer hlim, Plan.answer_map, hall]

/-- **A fault is reported exactly if the plan shows it.**  If the description of a newly built
tree has an error, then every flavour of a run without a limit answers the fault that the
plan shows, and if it shows none, the run succeeds without results. -/
theorem faulty_run_answers (p : BasicPlan α)
    (hfault : (Operator.describe (Cursor.start p)).hasError = true) (r : Run ω)
    (hlim : r.options.limit = none) (w : ω) {turns : Nat}
    (hturns : turnsFor (Cursor.start p) ≤ turns) :
    (∀ f : α → ω → ω, (r.loop (onResult f)).Unfired (.start (Cursor.start p) w) →
      ∃ rep, r.each f turns (Cursor.start p) w = some rep ∧ rep.outcome = p.answer ()) ∧
    (∀ f : Bindings α → ω → ω, (r.loop (onTags f)).Unfired (.start (Cursor.start p) w) →
      ∃ rep, r.eachTagged f turns (Cursor.start p) w = some rep ∧ rep.outcome = p.answer ()) ∧
    ((r.loop fun _ w => w).Unfired (.start (Cursor.start p) w) →
      ∃ rep, r.count turns (Cursor.start p) w = some rep ∧ rep.outcome = p.answer 0) ∧
    (((r.gathering (List α)).loop gather).Unfired (.start (Cursor.start p) (w, [])) →
      ∃ rep, r.all turns (Cursor.start p) w = some rep ∧ rep.outcome = p.answer []) := by
  rw [Cursor.hasError_describe_start] at hfault
  have hanswers := run_answers p r hlim w hturns
  rwa [Plan.visits_eq_nil hfault] at hanswers

/-- An intersection whose probed child has a fault. -/
def shownError : BasicPlan Ref :=
  .probe ⟨2⟩ (.fixed ⟨0⟩ (.ofValues [⟨[1]⟩])) [.error ⟨1⟩ (.backend "down")]

theorem faulty_run_answers_shownError :
    (Operator.describe (Cursor.start shownError)).hasError = true ∧
    turnsFor (Cursor.start shownError) ≤ 4 ∧
    ∃ rep, (Run.new fun w : Unit => (.clear, w)).count 4 (Cursor.start shownError) () = some rep ∧
      rep.outcome = .error (.backend "down") := by
  have hfault : (Operator.describe (Cursor.start shownError)).hasError = true := by decide
  have hturns : turnsFor (Cursor.start shownError) ≤ 4 := by decide
  obtain ⟨-, -, hcount, -⟩ :=
    faulty_run_answers shownError hfault (Run.new fun w : Unit => (.clear, w)) rfl () hturns
  exact ⟨hfault, hturns, hcount (Loop.unfired_of_look (fun _ => rfl) _)⟩

/-- An intersection whose probed child has a child with a fault. -/
def hiddenError : BasicPlan Ref :=
  .probe ⟨4⟩ (.fixed ⟨0⟩ (.ofValues [⟨[1]⟩]))
    [.probe ⟨3⟩ (.fixed ⟨1⟩ (.ofValues [⟨[1]⟩])) [.error ⟨2⟩ (.backend "down")]]

/-- **A fault can be silent**: the description has an error, and a run succeeds. -/
theorem hidden_fault_is_silent :
    (Operator.describe (Cursor.start hiddenError)).hasError = true ∧
    ((Run.new fun w : Unit => (.clear, w)).count 4 (Cursor.start hiddenError) ()).map
      Report.outcome = some (.ok 0) := by
  refine ⟨?_, ?_⟩
  · decide
  · rfl

end Run

end QueryPlan
