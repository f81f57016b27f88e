import QueryPlan.Plan.Build
import QueryPlan.Proofs.Run.Likeness
import QueryPlan.Proofs.Tree.Faults
import QueryPlan.Proofs.Tree.Fired

/-!
# Pruning

A tree whose size says that it has no results can be replaced by a node without results.
`Transform.prune` does so if its root has no error, and looks no further, before any step was
made.  This file says when a run can tell the difference.

* `Cursor.rows_eq_nil_of_size` — a size that is exactly zero does not lie: such a tree has no
  rows and no members.
* `Run.sameAnswers_of_barren` — a run over a node whose first step finds nothing (a barren one) is
  one turn, and of what the node does in it only its error shows.
* `Plan.faultAt` — that error, for a tree without rows: what the context shows when the step is
  made or, if it shows nothing, the fault that the plan shows.
* `Run.pruned_tree_answers` — so pruning changes no answer exactly where there is no such error,
  or the run ends before the step.  An intersection with an error leaf has no error before its
  first step and is pruned all the same (`Run.pruned_fault_is_silent`).
-/

namespace QueryPlan

/-! ## Sizes that are exactly zero -/

theorem Size.isExactZero_iff {s : Size} :
    s.isExactZero = true ↔ s.exact = true ∧ s.value = 0 := by
  simp [isExactZero]

namespace Cursor

/-- The size of an intersection is exactly zero only if that of a child is. -/
theorem exists_isExactZero_of_meetSize {first : Size} {others : List Size}
    (h : (meetSize first others).isExactZero = true) :
    ∃ s ∈ first :: others, s.isExactZero = true := by
  unfold meetSize at h
  dsimp only at h
  split at h
  · rename_i hzero
    exact List.any_eq_true.1 hzero.2
  · cases h

variable {α : Type} [Item α]

omit [Item α] in
/-- Sizes of children are sizes that cursors of the plans have. -/
theorem exists_of_mem_sizes {s : Size} {ps : List (BasicPlan α)} :
    ∀ {cs : Cursors ps}, s ∈ sizes cs → ∃ p ∈ ps, ∃ c : Cursor p, size c = s := by
  induction ps with
  | nil =>
    intro cs h
    cases cs
    cases h
  | cons p ps ih =>
    intro cs h
    cases cs with
    | cons c cs =>
      rcases List.mem_cons.1 h with rfl | h
      · exact ⟨p, List.mem_cons_self, c, rfl⟩
      · obtain ⟨q, hq, c', hc'⟩ := ih h
        exact ⟨q, List.mem_cons_of_mem _ hq, c', hc'⟩

/-- **A tree whose size is exactly zero has no rows and no members**, wherever its cursors
stand. -/
theorem rows_eq_nil_of_size {p : BasicPlan α} : ∀ {c : Cursor p},
    (size c).isExactZero = true → p.rows = [] ∧ ∀ x, p.has x = false := by
  induction p using BasicPlan.induct with
  | null uid => exact fun _ => ⟨rfl, fun _ => rfl⟩
  | error uid e => exact fun _ => ⟨rfl, fun _ => rfl⟩
  | fixed uid leaf =>
    intro c h
    cases c with
    | fixed c =>
      obtain ⟨-, hvalue⟩ := Size.isExactZero_iff.1 h
      have hlength : leaf.rows.length = 0 := Int.ofNat_eq_zero.1 hvalue
      have hrows : leaf.rows = [] := List.length_eq_zero_iff.1 hlength
      refine ⟨hrows, fun x => ?_⟩
      show leaf.rows.any (·.value == x) = false
      rw [hrows, List.any_nil]
  | probe uid p os ih ihos =>
    intro c h
    cases c with
    | probe e c cs =>
      have hchild : ∃ s ∈ size c :: sizes cs, s.isExactZero = true :=
        exists_isExactZero_of_meetSize h
      obtain ⟨s, hs, hzero⟩ := hchild
      rcases List.mem_cons.1 hs with rfl | hs
      · obtain ⟨hrows, hhas⟩ := ih hzero
        refine ⟨?_, fun x => ?_⟩
        · rw [Plan.rows_probe, hrows, List.filter_nil]
        · rw [Plan.has_probe, hhas, Bool.false_and]
      · obtain ⟨o, ho, c', rfl⟩ := exists_of_mem_sizes hs
        have hall (x : α) : Plan.allHave x os = false := by
          refine Bool.eq_false_iff.2 fun hall => ?_
          have hyes := Plan.allHave_eq_true_iff.1 hall o ho
          rw [(ihos o ho hzero).2 x] at hyes
          cases hyes
        refine ⟨?_, fun x => ?_⟩
        · rw [Plan.rows_probe]
          exact List.filter_eq_nil_iff.2 fun row _ => by simp [hall]
        · rw [Plan.has_probe, hall, Bool.and_false]

end Cursor

/-! ## The first step of a tree without rows -/

/-- The error after the first step of a tree without rows and without an error so far, under a
context with this signal: a leaf or an intersection looks at its context first, and the fault
that a plan shows turns up at the first step. -/
def Plan.faultAt {α : Type} (s : Signal) : BasicPlan α → Option QueryError
  | .null _ => none
  | p => s.error?.or p.shownFault

theorem Plan.faultAt_clear {α : Type} (p : BasicPlan α) : p.faultAt .clear = p.shownFault := by
  cases p <;> rfl

theorem Plan.faultAt_of_fired {α : Type} {p : BasicPlan α} {s : Signal} {e : QueryError}
    (he : s.error? = some e) (hp : ∀ uid, p ≠ .null uid) : p.faultAt s = some e := by
  cases p with
  | null uid => exact absurd rfl (hp uid)
  | _ =>
    show s.error?.or _ = some e
    rw [he, Option.some_or]

namespace Cursor

variable {α : Type} [Item α]

theorem next_start_of_rows_nil {p : BasicPlan α} (hrows : p.rows = []) (herr : err (start p) = none)
    (s : Signal) : (next s (start p)).1 = false ∧ err (next s (start p)).2 = p.faultAt s := by
  rcases s.eq_clear_or_error? with rfl | ⟨e, he⟩
  · obtain ⟨-, hstep⟩ := next_stepsTo (start p) (healthy_start p)
    rw [ahead_start, hrows] at hstep
    exact ⟨hstep.1, hstep.2.2.trans p.faultAt_clear.symm⟩
  · rw [next_of_fired he]
    cases p with
    | null uid => exact ⟨rfl, rfl⟩
    | error uid e' => cases herr
    | custom n => cases n
    | _ =>
      rw [Plan.faultAt_of_fired he fun _ h => by cases h]
      exact ⟨rfl, rfl⟩

end Cursor

/-! ## Runs over nodes whose first step finds nothing -/

/-- Does a step of the node, as it stands, find nothing under any context? -/
def Operator.Barren {σ α : Type} [Operator σ α] (it : σ) : Prop :=
  ∀ s, (Operator.next s it).1 = false

theorem RunOptions.reached_zero_iff {c : RunOptions} : c.reached 0 = true ↔ c.limit = some 0 := by
  unfold reached
  cases c.limit with
  | none => simp
  | some n => simp

namespace Run

section Barren

variable {σ σ' α ω : Type} [Operator σ α] [Operator σ' α]

/-- The error that a run over a barren node reports: the node's own if the run may visit nothing,
else what the context shows, else what the node has after its step. -/
def errAtOnce (r : Run ω) (it : σ) (w : ω) : Option QueryError :=
  if r.options.reached 0 then Operator.err it
  else (r.look w).1.error?.or (Operator.err (Operator.next (r.look (r.look w).2).1 it).2)

/-- The world that a run over a barren node leaves. -/
def worldAtOnce (r : Run ω) (w : ω) : ω :=
  if r.options.reached 0 then w
  else if (r.look w).1 = .clear then (r.look (r.look w).2).2 else (r.look w).2

/-- A run over a barren node is over after one turn. -/
theorem turn_of_barren (r : Run ω) (visit : σ → ω → ω) {it : σ} (hno : Operator.Barren it)
    (w : ω) : ∃ jt, (r.loop visit).turn (.start it w) =
      .halt ⟨jt, r.worldAtOnce w, 0, r.errAtOnce it w⟩ := by
  let l : Loop σ ω := r.loop visit
  let s : Stand σ ω := .start it w
  show ∃ jt, l.turn s = .halt ⟨jt, r.worldAtOnce w, 0, r.errAtOnce it w⟩
  rw [worldAtOnce, errAtOnce]
  cases hr : r.options.reached 0 with
  | true => exact ⟨it, Loop.turn_of_reached (l := l) (s := s) hr⟩
  | false =>
    rcases (r.look w).1.eq_clear_or_error? with hs | ⟨e, he⟩
    · have hseen : (l.seen s).error? = none := Signal.error?_eq_none_iff.2 hs
      have htried : l.tried s = (false, (Operator.next (l.handed s) it).2) :=
        Prod.ext (hno _) rfl
      rw [if_pos hs, hs]
      exact ⟨_, Loop.turn_of_over (l := l) (s := s) hr hseen htried rfl⟩
    · have hseen : (l.seen s).error? = some e := he
      have hs : (r.look w).1 ≠ .clear := Signal.ne_clear_of_error? he
      rw [if_neg hs, he]
      exact ⟨it, Loop.turn_of_fired (l := l) (s := s) hr hseen⟩

variable {it : σ} {it' : σ'} {turns : Nat}

/-- What a run over a barren node answers. -/
theorem visiting_of_barren (r : Run ω) (visit : σ → ω → ω) (hno : Operator.Barren it) (w : ω)
    (hturns : 0 < turns) :
    ∃ rep, r.visiting visit turns it w = some rep ∧ rep.world = r.worldAtOnce w ∧
      rep.outcome = match r.errAtOnce it w with
        | some e => .error e
        | none => .ok 0 := by
  obtain ⟨turns, rfl⟩ : ∃ n, turns = n + 1 := ⟨turns - 1, by omega⟩
  obtain ⟨jt, hjt⟩ := turn_of_barren r visit hno w
  refine ⟨Report.ofHalt (Operator.uid it) ⟨jt, r.worldAtOnce w, 0, r.errAtOnce it w⟩, ?_, ?_, ?_⟩
  · rw [visiting_eq, Loop.haltFrom?_succ, hjt]
    rfl
  · rw [ofHalt_world]
  · exact ofHalt_outcome _ _

/-- Runs over two barren nodes agree if they report the same error. -/
theorem visiting_agree_of_barren (r : Run ω) (visit : σ → ω → ω) (visit' : σ' → ω → ω)
    (hno : Operator.Barren it) (hno' : Operator.Barren it') (w : ω) (hturns : 0 < turns)
    (herr : r.errAtOnce it w = r.errAtOnce it' w) :
    Report.Agree (r.visiting visit turns it w) (r.visiting visit' turns it' w) := by
  obtain ⟨rep, hrep, hworld, houtcome⟩ := visiting_of_barren r visit hno w hturns
  obtain ⟨rep', hrep', hworld', houtcome'⟩ := visiting_of_barren r visit' hno' w hturns
  exact ⟨rep, rep', hrep, hrep', by rw [houtcome, houtcome', herr], hworld.trans hworld'.symm⟩

/-- **Barren nodes give the same answers** if they have the same error, or none, before the step
and after it; what they have after it does not matter to a run that ends before. -/
theorem sameAnswers_of_barren (r : Run ω) (hno : Operator.Barren it)
    (hno' : Operator.Barren it') (hfresh : Operator.err it = Operator.err it') (w : ω)
    (hturns : 0 < turns)
    (herr : r.options.limit = some 0 ∨ (r.look w).1 ≠ .clear ∨
      Operator.err (Operator.next (r.look (r.look w).2).1 it).2 =
        Operator.err (Operator.next (r.look (r.look w).2).1 it').2) :
    r.SameAnswers turns it it' w := by
  -- a run for the first result has a limit of its own, which is zero exactly if the run's is
  have hsame (r' : Run ω) (hlook : r'.look = r.look)
      (hlimit : r.options.limit = some 0 → r'.options.limit = some 0) :
      r'.errAtOnce it w = r'.errAtOnce it' w := by
    rw [errAtOnce, errAtOnce, hlook, hfresh]
    rcases herr with hzero | hfired | herr
    · have hreached : r'.options.reached 0 = true := RunOptions.reached_zero_iff.2 (hlimit hzero)
      rw [if_pos hreached, if_pos hreached]
    · rcases (r.look w).1.eq_clear_or_error? with hs | ⟨e, he⟩
      · exact absurd hs hfired
      · rw [he, Option.some_or, Option.some_or]
    · rw [herr]
  have hagree (visit : σ → ω → ω) (visit' : σ' → ω → ω) :
      Report.Agree (r.visiting visit turns it w) (r.visiting visit' turns it' w) :=
    visiting_agree_of_barren r visit visit' hno hno' w hturns (hsame r rfl id)
  have hgathering {β : Type} (b : β) (r' : Run ω) (hlook : r'.look = r.look)
      (hlimit : r.options.limit = some 0 → r'.options.limit = some 0)
      (visit : σ → ω × β → ω × β) (visit' : σ' → ω × β → ω × β) :
      Report.Agree ((r'.gathering β).visiting visit turns it (w, b))
        ((r'.gathering β).visiting visit' turns it' (w, b)) :=
    visiting_agree_of_barren _ visit visit' hno hno' _ hturns (hsame r' hlook hlimit)
  have hfirst (hzero : r.options.limit = some 0) :
      (r.withLimit (limitOfFirst r.options.limit)).options.limit = some 0 := by
    show some (limitOfFirst r.options.limit) = some 0
    rw [hzero]
    rfl
  exact {
    each := fun f => (hagree _ _).reading _ _
    eachTagged := fun f => (hagree _ _).reading _ _
    count := hagree _ _
    all := (hgathering [] r rfl id _ _).reading _ _
    first := (hgathering none (r.withLimit _) rfl hfirst _ _).reading _ _ }

end Barren

/-! ## Pruned trees -/

variable {α ω : Type} [Item α]

/-- A newly built tree that is known to have no results, and has met no error, is pruned. -/
theorem prune_start {p : BasicPlan α} (hzero : (Operator.size (Cursor.start p)).isExactZero = true)
    (herr : Operator.err (Cursor.start p) = none) (b : BuildState) :
    ((Transform.applyAll [Transform.prune] (Tree.start p)).run b).1 =
      Tree.start (.null b.uids.next.1) := by
  have hguard : ((Tree.start p).cursor.size.isExactZero && (Tree.start p).cursor.err.isNone) =
      true := by
    rw [show (Tree.start p).cursor.size.isExactZero = true from hzero,
      show (Tree.start p).cursor.err = none from herr]
    rfl
  rw [Transform.applyAll, List.foldlM_cons, Transform.prune, if_pos hguard]
  rfl

/-- Where the first step of a tree without rows ends with an error, a run that makes it reports
the error, and over a node without results it succeeds. -/
theorem counts_of_faultAt {p : BasicPlan α} (hrows : p.rows = [])
    (herr : Operator.err (Cursor.start p) = none) (uid : Uid) {r : Run ω} {w : ω} {turns : Nat}
    (hturns : 0 < turns) (hlimit : r.options.limit ≠ some 0) (hclear : (r.look w).1 = .clear)
    {e : QueryError} (he : p.faultAt (r.look (r.look w).2).1 = some e) :
    (∃ rep, r.count turns (Cursor.start p) w = some rep ∧ rep.outcome = .error e) ∧
    ∃ rep, r.count turns (Cursor.start (.null uid : BasicPlan α)) w = some rep ∧
      rep.outcome = .ok 0 := by
  let q : BasicPlan α := .null uid
  have hfirst := Cursor.next_start_of_rows_nil hrows herr
  have hno : Operator.Barren (Cursor.start p) := fun s => (hfirst s).1
  have hno' : Operator.Barren (Cursor.start q) := fun _ => rfl
  have hreached : ¬ r.options.reached 0 = true :=
    fun hreached => hlimit (RunOptions.reached_zero_iff.1 hreached)
  have herr₁ : r.errAtOnce (Cursor.start p) w = some e := by
    rw [errAtOnce, if_neg hreached, hclear]
    exact (hfirst _).2.trans he
  have herr₂ : r.errAtOnce (Cursor.start q) w = none := by
    rw [errAtOnce, if_neg hreached, hclear]
    rfl
  obtain ⟨rep, hrep, -, houtcome⟩ := visiting_of_barren r (fun _ w => w) hno w hturns
  obtain ⟨rep', hrep', -, houtcome'⟩ := visiting_of_barren r (fun _ w => w) hno' w hturns
  rw [herr₁] at houtcome
  rw [herr₂] at houtcome'
  exact ⟨⟨rep, hrep, houtcome⟩, rep', hrep', houtcome'⟩

/-- **Where pruning keeps the answers.**  If the size of a newly built tree is exactly zero and
its root has no error, it is replaced by a node without results.  Every flavour of a run then
answers as over the tree itself exactly if the run may visit nothing, or its context shows
something when the run looks, or the tree's first step would end without an error.  Otherwise
a run over the tree reports that error, and over the node in its place it succeeds. -/
theorem pruned_tree_answers (p : BasicPlan α)
    (hzero : (Operator.size (Cursor.start p)).isExactZero = true)
    (herr : Operator.err (Cursor.start p) = none) (b : BuildState) (r : Run ω) (w : ω)
    {turns : Nat} (hturns : 0 < turns) :
    ((Transform.applyAll [Transform.prune] (Tree.start p)).run b).1 =
      Tree.start (.null b.uids.next.1) ∧
    (r.SameAnswers turns (Cursor.start p)
        (Cursor.start (.null b.uids.next.1 : BasicPlan α)) w ↔
      r.options.limit = some 0 ∨ (r.look w).1 ≠ .clear ∨
        p.faultAt (r.look (r.look w).2).1 = none) ∧
    (r.options.limit ≠ some 0 → (r.look w).1 = .clear →
      ∀ e, p.faultAt (r.look (r.look w).2).1 = some e →
        (∃ rep, r.count turns (Cursor.start p) w = some rep ∧ rep.outcome = .error e) ∧
        ∃ rep, r.count turns (Cursor.start (.null b.uids.next.1 : BasicPlan α)) w = some rep ∧
          rep.outcome = .ok 0) := by
  obtain ⟨hrows, -⟩ := Cursor.rows_eq_nil_of_size hzero
  have hfirst := Cursor.next_start_of_rows_nil hrows herr
  refine ⟨prune_start hzero herr b, ⟨fun hsame => ?_, fun h => ?_⟩,
    fun hlimit hclear e he => counts_of_faultAt hrows herr _ hturns hlimit hclear he⟩
  · -- the counts alone tell the two apart
    refine Classical.byContradiction fun hnot => ?_
    obtain ⟨hlimit, hnot⟩ := not_or.1 hnot
    obtain ⟨hclear, hnone⟩ := not_or.1 hnot
    obtain ⟨e, he⟩ := Option.ne_none_iff_exists'.1 hnone
    obtain ⟨⟨rep, hrep, houtcome⟩, rep', hrep', houtcome'⟩ :=
      counts_of_faultAt hrows herr _ hturns hlimit (Classical.not_not.1 hclear) he
    obtain ⟨rep₁, rep₂, hrep₁, hrep₂, hagree, -⟩ := hsame.count
    obtain rfl := Option.some.inj (hrep₁.symm.trans hrep)
    obtain rfl := Option.some.inj (hrep₂.symm.trans hrep')
    rw [houtcome, houtcome'] at hagree
    cases hagree
  · refine sameAnswers_of_barren r (fun s => (hfirst s).1) (fun _ => rfl) herr w hturns
      (h.imp_right (Or.imp_right fun h => ?_))
    exact (hfirst _).2.trans h

/-- An intersection of a row with nothing. -/
def emptyMeet : BasicPlan Ref :=
  .probe ⟨2⟩ (.fixed ⟨0⟩ (.ofValues [⟨[1]⟩])) [.null ⟨1⟩]

theorem pruned_tree_answers_emptyMeet :
    (Operator.size (Cursor.start emptyMeet)).isExactZero = true ∧
    Operator.err (Cursor.start emptyMeet) = none ∧
    ((Transform.applyAll [Transform.prune] (Tree.start emptyMeet)).run ⟨⟨3⟩, []⟩).1 =
      Tree.start (.null ⟨3⟩) ∧
    (Run.new fun w : Unit => (.clear, w)).SameAnswers 1 (Cursor.start emptyMeet)
      (Cursor.start (.null ⟨3⟩ : BasicPlan Ref)) () := by
  have hzero : (Operator.size (Cursor.start emptyMeet)).isExactZero = true := by decide
  have herr : Operator.err (Cursor.start emptyMeet) = none := by decide
  obtain ⟨hnull, hsame, -⟩ := pruned_tree_answers emptyMeet hzero herr ⟨⟨3⟩, []⟩
    (Run.new fun w : Unit => (.clear, w)) () Nat.one_pos
  exact ⟨hzero, herr, hnull, hsame.2 (Or.inr (Or.inr rfl))⟩

/-- **Pruning can silence a fault**: a run over the tree reports it, and a run over the node that
takes the tree's place succeeds. -/
theorem pruned_fault_is_silent :
    (Operator.size (Cursor.start shownError)).isExactZero = true ∧
    Operator.err (Cursor.start shownError) = none ∧
    ((Run.new fun w : Unit => (.clear, w)).count 2 (Cursor.start shownError) ()).map
      Report.outcome = some (.error (.backend "down")) ∧
    ((Run.new fun w : Unit => (.clear, w)).count 2
      ((Transform.applyAll [Transform.prune] (Tree.start shownError)).run ⟨⟨3⟩, []⟩).1.cursor
      ()).map Report.outcome = some (.ok 0) := by
  refine ⟨?_, ?_, ?_, ?_⟩
  · decide
  · decide
  · rfl
  · rfl

end Run

end QueryPlan
