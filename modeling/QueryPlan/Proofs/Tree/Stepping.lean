import QueryPlan.Proofs.Tree.Meaning
import QueryPlan.Proofs.Tree.Unfolding

/-!
# What the cursors of a plan tree do

How the operations of a tree's cursors follow the meaning of its plan, as long as the
context shows nothing.  A cursor is read through two views: the rows that are still
ahead of it, and how many more ways there are of reaching the row it stands on.

* `contains_clear` — a membership test answers what `Plan.has` says, wherever the
  cursors stand, and changes no root's error.
* `Healthy` — the invariant of a tree that is driven by its root: its rows were never
  interrupted, and the only error it can have met is the one its plan shows.
* `next_stepsTo` — a step moves to the first row ahead, or reports the fault of the plan.
* `nextPath_takesWay` — a path step takes one of the ways left.
-/

namespace QueryPlan

/-! ## Leaves with rows -/

namespace RowSet

variable {α : Type}

theorem contains_clear [BEq α] (leaf : RowSet α) (x : α) (c : RowCursor) :
    (leaf.contains .clear x c).1 = leaf.rows.any (·.value == x) ∧
      (leaf.contains .clear x c).2.err = c.err := by
  unfold contains
  rw [show c.stop .clear = none from rfl]
  dsimp only
  split
  · rename_i h
    exact ⟨h.symm, rfl⟩
  · rename_i h
    exact ⟨by simpa using h, rfl⟩

/-- A leaf that was not interrupted moves to the row at its index, and reports the end when
there is none. -/
theorem next_clear (leaf : RowSet α) {c : RowCursor}
    (hc : c.progress.state.isTerminal = true → leaf.rows.length ≤ c.index) :
    (leaf.rows.drop c.index = [] ∧ (leaf.next .clear c).1 = false ∧
      (leaf.next .clear c).2.index = c.index ∧ (leaf.next .clear c).2.err = c.err) ∨
    ∃ row, leaf.rows[c.index]? = some row ∧ (leaf.next .clear c).1 = true ∧
      (leaf.next .clear c).2 = { c with
        nextCalls := c.nextCalls + 1
        current := some c.index
        index := c.index + 1
        path := 0
        progress := c.progress.position } := by
  unfold next
  by_cases ht : c.progress.state.isTerminal = true
  · rw [if_pos ht]
    exact Or.inl ⟨List.drop_eq_nil_of_le (hc ht), rfl, rfl, rfl⟩
  · rw [if_neg ht, show c.stop .clear = none from rfl]
    by_cases hi : c.index < leaf.rows.length
    · dsimp only
      rw [if_pos hi]
      exact Or.inr ⟨leaf.rows[c.index], List.getElem?_eq_getElem hi, rfl, rfl⟩
    · dsimp only
      rw [if_neg hi]
      exact Or.inl ⟨List.drop_eq_nil_of_le (by omega), rfl, rfl, rfl⟩

theorem nextPath_of_none (leaf : RowSet α) {c : RowCursor} (h : leaf.currentRow c = none)
    (s : Signal) : leaf.nextPath s c = (false, c) := by
  unfold nextPath
  rw [h]

theorem nextPath_clear (leaf : RowSet α) {c : RowCursor} {row : Row α}
    (h : leaf.currentRow c = some row) :
    leaf.nextPath .clear c =
      if c.path + 1 < row.witnesses.length then (true, { c with path := c.path + 1 })
      else (false, c) := by
  unfold nextPath
  rw [h]
  rfl

end RowSet

namespace Cursor

variable {α : Type} [Item α]

/-! ## Testing members -/

/-- If the tests in several trees answer what their plans say, so does the test in all of
them. -/
theorem containsAll_of_contains {x : α} :
    ∀ {ps : List (BasicPlan α)}, (∀ p ∈ ps, ∀ c : Cursor p,
      (contains .clear x c).1 = p.has x ∧ err (contains .clear x c).2 = err c) →
    ∀ cs : Cursors ps, (containsAll .clear x cs).1 = Plan.allHave x ps ∧
      firstErr (containsAll .clear x cs).2 = firstErr cs := by
  intro ps
  induction ps with
  | nil =>
    intro _ cs
    cases cs
    exact ⟨rfl, rfl⟩
  | cons p ps ih =>
    intro h cs
    cases cs with
    | cons c cs =>
      obtain ⟨hyes, herr⟩ := h p List.mem_cons_self c
      obtain ⟨hyes', herr'⟩ := ih (fun q hq => h q (List.mem_cons_of_mem _ hq)) cs
      rcases hc : contains .clear x c with ⟨_ | _, c'⟩
      · rw [hc] at hyes herr
        rw [containsAll_cons, hc, Plan.allHave_cons, ← hyes]
        exact ⟨rfl, by rw [firstErr_cons, firstErr_cons, herr]⟩
      · rw [hc] at hyes herr
        rw [containsAll_cons, hc, Plan.allHave_cons, ← hyes]
        exact ⟨by simpa using hyes', by rw [firstErr_cons, firstErr_cons, herr, herr']⟩

/-- **A membership test answers what the plan says**, wherever the cursors stand, and meets
no error. -/
theorem contains_clear (x : α) {p : BasicPlan α} : ∀ c : Cursor p,
    (contains .clear x c).1 = p.has x ∧ err (contains .clear x c).2 = err c := by
  induction p using BasicPlan.induct with
  | null uid =>
    intro c
    cases c
    exact ⟨rfl, rfl⟩
  | error uid e =>
    intro c
    cases c
    exact ⟨rfl, rfl⟩
  | fixed uid leaf =>
    intro c
    cases c with
    | fixed c => exact leaf.contains_clear x c
  | probe uid p os ihp ihos =>
    intro c
    cases c with
    | probe e c cs =>
      obtain ⟨hyes, -⟩ := ihp c
      obtain ⟨hyes', -⟩ := containsAll_of_contains ihos cs
      rcases hc : contains .clear x c with ⟨_ | _, c'⟩
      · rw [hc] at hyes
        rw [contains_probe, hc, Plan.has_probe, ← hyes]
        exact ⟨rfl, rfl⟩
      · rw [hc] at hyes
        rw [contains_probe, hc, Plan.has_probe, ← hyes]
        exact ⟨by simpa using hyes', rfl⟩

theorem containsAll_clear (x : α) {ps : List (BasicPlan α)} (cs : Cursors ps) :
    (containsAll .clear x cs).1 = Plan.allHave x ps ∧
      firstErr (containsAll .clear x cs).2 = firstErr cs :=
  containsAll_of_contains (fun _ _ c => contains_clear x c) cs

/-! ## Views of a cursor -/

/-- The rows that a run would still come to. -/
def ahead : {p : BasicPlan α} → Cursor p → List (Row α)
  | .fixed _ leaf, .fixed c => leaf.rows.drop c.index
  | .probe _ _ os, .probe _ c _ => (ahead c).filter fun r => Plan.allHave r.value os
  | _, _ => []

theorem ahead_fixed {uid : Uid} {leaf : RowSet α} {c : RowCursor} :
    ahead (.fixed c : Cursor (.fixed uid leaf)) = leaf.rows.drop c.index := rfl

theorem ahead_probe {uid : Uid} {p : BasicPlan α} {os : List (BasicPlan α)}
    {e : Option QueryError} {c : Cursor p} {cs : Cursors os} :
    ahead (.probe e c cs : Cursor (.probe uid p os)) =
      (ahead c).filter fun r => Plan.allHave r.value os := rfl

/-- How many more ways there are of reaching the row that the cursor stands on. -/
def waysLeft : {p : BasicPlan α} → Cursor p → Nat
  | .fixed _ leaf, .fixed c =>
    match leaf.currentRow c with
    | none => 0
    | some row => row.witnesses.length - (c.path + 1)
  | .probe _ _ _, .probe _ c _ => waysLeft c
  | _, _ => 0

omit [Item α] in
theorem waysLeft_fixed {uid : Uid} {leaf : RowSet α} {c : RowCursor} {row : Row α}
    (h : leaf.currentRow c = some row) :
    waysLeft (.fixed c : Cursor (.fixed uid leaf)) = row.witnesses.length - (c.path + 1) := by
  show (match leaf.currentRow c with
    | none => 0
    | some row => row.witnesses.length - (c.path + 1)) = _
  rw [h]

omit [Item α] in
theorem waysLeft_of_none {uid : Uid} {leaf : RowSet α} {c : RowCursor}
    (h : leaf.currentRow c = none) : waysLeft (.fixed c : Cursor (.fixed uid leaf)) = 0 := by
  show (match leaf.currentRow c with
    | none => 0
    | some row => row.witnesses.length - (c.path + 1)) = _
  rw [h]

/-- A tree that is driven by its root under contexts that show nothing: its rows were never
interrupted and are not given up before their end, the trees beside the chain of first
children have met no error, and a probe has met none but the one its plan shows. -/
def Healthy : {p : BasicPlan α} → Cursor p → Prop
  | .fixed _ leaf, .fixed c =>
    c.err = none ∧ (c.progress.state.isTerminal = true → leaf.rows.length ≤ c.index)
  | .probe uid p os, .probe e c cs =>
    Healthy c ∧ firstErr cs = os.findSome? Plan.leafFault ∧
      (e = none ∨ e = Plan.shownFault (.probe uid p os))
  | _, _ => True

omit [Item α] in
theorem err_of_healthy {p : BasicPlan α} {c : Cursor p} (hc : Healthy c) :
    err c = none ∨ err c = p.shownFault := by
  cases p with
  | null uid => cases c; exact Or.inl rfl
  | error uid e => cases c; exact Or.inr rfl
  | fixed uid leaf => cases c with | fixed c => exact Or.inl hc.1
  | probe uid p os => cases c with | probe e c cs => exact hc.2.2
  | custom n => cases n

/-- A plan with a fault has no rows ahead, wherever its cursor stands. -/
theorem ahead_of_hasErrorLeaf {p : BasicPlan α} (h : p.hasErrorLeaf = true) :
    ∀ c : Cursor p, ahead c = [] := by
  induction p using BasicPlan.induct with
  | null uid => cases h
  | error uid e => intro c; cases c; rfl
  | fixed uid leaf => cases h
  | probe uid p os ih _ =>
    intro c
    cases c with
    | probe e c cs =>
      rw [Plan.hasErrorLeaf_probe, Bool.or_eq_true] at h
      rw [ahead_probe]
      rcases h with h | h
      · rw [ih h c, List.filter_nil]
      · exact List.filter_eq_nil_iff.2 fun r _ => by simp [Plan.allHave_eq_false h]

theorem ahead_of_shownFault {p : BasicPlan α} (c : Cursor p) {e : QueryError}
    (h : p.shownFault = some e) : ahead c = [] :=
  ahead_of_hasErrorLeaf (Plan.hasErrorLeaf_of_shownFault h) c

/-- The rows ahead are among those that the cursor says are pending. -/
theorem ahead_sublist_pending {p : BasicPlan α} : ∀ c : Cursor p,
    ((ahead c).map Row.paths).Sublist (pending c) := by
  induction p using BasicPlan.induct with
  | null uid => intro c; cases c; exact List.Sublist.refl _
  | error uid e => intro c; cases c; exact List.Sublist.refl _
  | fixed uid leaf => intro c; cases c; exact List.Sublist.refl _
  | probe uid p os ih _ =>
    intro c
    cases c with
    | probe e c cs =>
      rw [ahead_probe, pending_probe]
      exact (List.filter_sublist.map _).trans (ih c)

theorem length_ahead_le_pending {p : BasicPlan α} (c : Cursor p) :
    (ahead c).length ≤ (pending c).length := by
  simpa using (ahead_sublist_pending c).length_le

/-! ## Moving to the next result -/

/-- What a step has to come to: with rows ahead, it moves to the first of them; without, it
reports the fault of the plan. -/
def StepsTo {p : BasicPlan α} (c : Cursor p) (answer : Bool × Cursor p) : Prop :=
  Healthy answer.2 ∧
    match ahead c with
    | [] => answer.1 = false ∧ ahead answer.2 = [] ∧ err answer.2 = p.shownFault
    | row :: rest => answer.1 = true ∧ ahead answer.2 = rest ∧
        result answer.2 = some row.value ∧ waysLeft answer.2 = row.paths - 1

theorem fixed_stepsTo {uid : Uid} {leaf : RowSet α} {c : RowCursor}
    (hc : Healthy (.fixed c : Cursor (.fixed uid leaf))) :
    StepsTo (.fixed c : Cursor (.fixed uid leaf)) (next .clear (.fixed c)) := by
  obtain ⟨herr, hterm⟩ := hc
  have hnext := leaf.next_clear hterm
  rw [next_fixed]
  rcases hn : leaf.next .clear c with ⟨yes, c'⟩
  rw [hn] at hnext
  rcases hnext with ⟨hd, rfl, hindex, herr'⟩ | ⟨row, hrow, rfl, hc'⟩
  · dsimp only at hindex herr'
    have hnone : c'.err = none := herr'.trans herr
    unfold StepsTo
    rw [ahead_fixed, hd]
    refine ⟨⟨hnone, fun _ => ?_⟩, rfl, ?_, hnone⟩
    · rw [hindex]
      exact List.drop_eq_nil_iff.1 hd
    · rw [ahead_fixed, hindex, hd]
  · dsimp only at hc'
    obtain ⟨hlt, hget⟩ := List.getElem?_eq_some_iff.1 hrow
    have hcur : leaf.currentRow c' = some row := by
      rw [hc', RowSet.currentRow]
      exact hrow
    have hpath : c'.path = 0 := by rw [hc']
    have hindex : c'.index = c.index + 1 := by rw [hc']
    have hnone : c'.err = none := by rw [hc']; exact herr
    have hpos : c'.progress.state.isTerminal = false := by rw [hc']; rfl
    unfold StepsTo
    rw [ahead_fixed, List.drop_eq_getElem_cons hlt, hget]
    refine ⟨⟨hnone, fun ht => ?_⟩, rfl, ?_, ?_, ?_⟩
    · rw [hpos] at ht
      cases ht
    · rw [ahead_fixed, hindex]
    · rw [result_fixed, RowSet.result, hcur]
      rfl
    · rw [waysLeft_fixed hcur, hpath]
      unfold Row.paths
      omega

section Search

variable {uid : Uid} {p : BasicPlan α} {os : List (BasicPlan α)} {c c' : Cursor p}
  {cs cs' : Cursors os} {row : Row α} {rest : List (Row α)}

/-- The first child has no further row. -/
theorem probe_stepsTo_of_over (hc' : Healthy c') (hcs : firstErr cs = os.findSome? Plan.leafFault)
    (ha : ahead c = []) (ha' : ahead c' = []) (herr : err c' = p.shownFault) :
    StepsTo (.probe none c cs : Cursor (.probe uid p os))
      (false, .probe ((err c').orElse fun _ => firstErr cs) c' cs) := by
  have hfault : (err c').orElse (fun _ => firstErr cs) = Plan.shownFault (.probe uid p os) := by
    rw [Plan.shownFault_probe, herr, hcs]
    cases p.shownFault <;> rfl
  refine ⟨⟨hc', hcs, Or.inr hfault⟩, ?_⟩
  rw [ahead_probe, ha, List.filter_nil]
  exact ⟨rfl, by rw [ahead_probe, ha', List.filter_nil], hfault⟩

/-- The other children have the row that the first child came to. -/
theorem probe_stepsTo_of_found (hc' : Healthy c')
    (hcs' : firstErr cs' = os.findSome? Plan.leafFault) (ha : ahead c = row :: rest)
    (ha' : ahead c' = rest) (hres : result c' = some row.value)
    (hways : waysLeft c' = row.paths - 1) (hall : Plan.allHave row.value os = true) :
    StepsTo (.probe none c cs : Cursor (.probe uid p os)) (true, .probe none c' cs') := by
  have hahead : ahead (.probe none c cs : Cursor (.probe uid p os)) =
      row :: rest.filter fun r => Plan.allHave r.value os := by
    rw [ahead_probe, ha]
    exact List.filter_cons_of_pos hall
  refine ⟨⟨hc', hcs', Or.inl rfl⟩, ?_⟩
  rw [hahead]
  exact ⟨rfl, by rw [ahead_probe, ha'], hres, hways⟩

/-- Another child lacks the row that the first child came to … -/
theorem ahead_probe_of_missed (e : Option QueryError) (cs : Cursors os) (ha : ahead c = row :: rest)
    (hall : Plan.allHave row.value os = false) :
    ahead (.probe e c cs : Cursor (.probe uid p os)) =
      rest.filter fun r => Plan.allHave r.value os := by
  rw [ahead_probe, ha, List.filter_cons_of_neg (by simp [hall])]

/-- … and there is an error leaf among the other children. -/
theorem probe_stepsTo_of_fault {e : QueryError} (hc' : Healthy c')
    (hcs' : firstErr cs' = os.findSome? Plan.leafFault) (ha : ahead c = row :: rest)
    (ha' : ahead c' = rest) (hall : Plan.allHave row.value os = false)
    (hf : os.findSome? Plan.leafFault = some e) :
    StepsTo (.probe none c cs : Cursor (.probe uid p os)) (false, .probe (some e) c' cs') := by
  -- Since the first child had a row, it shows no fault of its own.
  have hp : p.shownFault = none := by
    cases hp : p.shownFault with
    | none => rfl
    | some e' =>
      rw [ahead_of_shownFault c hp] at ha
      cases ha
  have hfault : some e = Plan.shownFault (.probe uid p os) := by
    rw [Plan.shownFault_probe, hp, hf]
    rfl
  have hnil := ahead_of_shownFault (.probe none c cs : Cursor (.probe uid p os)) hfault.symm
  refine ⟨⟨hc', hcs', Or.inr hfault⟩, ?_⟩
  rw [hnil]
  refine ⟨rfl, ?_, hfault⟩
  rw [ahead_probe, ha', ← ahead_probe_of_missed none cs ha hall, hnil]

/-- **The search of an intersection** finds the first row ahead of its first child that all
others have, or the fault its plan shows.  Every round uses up a row ahead, so a round more
than there are rows is enough. -/
theorem search_stepsTo {step : Cursor p → Bool × Cursor p}
    (hstep : ∀ c, Healthy c → StepsTo c (step c)) :
    ∀ (rounds : Nat) (c : Cursor p) (cs : Cursors os), Healthy c →
      firstErr cs = os.findSome? Plan.leafFault → (ahead c).length < rounds →
      ∃ yes e c' cs', search step .clear rounds c cs = some (yes, e, c', cs') ∧
        StepsTo (.probe none c cs : Cursor (.probe uid p os)) (yes, .probe e c' cs') := by
  intro rounds
  induction rounds with
  | zero => intro c cs _ _ hr; omega
  | succ n ih =>
    intro c cs hc hcs hr
    obtain ⟨hc', hs⟩ := hstep c hc
    rw [search_succ]
    rcases hsc : step c with ⟨yes, c'⟩
    rw [hsc] at hc' hs
    cases ha : ahead c with
    | nil =>
      rw [ha] at hs
      obtain ⟨hyes, ha', herr⟩ := hs
      obtain rfl : yes = false := hyes
      exact ⟨false, _, c', cs, rfl, probe_stepsTo_of_over hc' hcs ha ha' herr⟩
    | cons row rest =>
      rw [ha] at hs
      obtain ⟨hyes, ha', hres, hways⟩ := hs
      obtain rfl : yes = true := hyes
      dsimp only at ha' hres hways ⊢
      rw [hres]
      dsimp only
      obtain ⟨hall, hfirst⟩ := containsAll_clear row.value cs
      rcases hcc : containsAll .clear row.value cs with ⟨yes, cs'⟩
      rw [hcc] at hall hfirst
      have hcs' : firstErr cs' = os.findSome? Plan.leafFault := hfirst.trans hcs
      cases yes with
      | true =>
        exact ⟨true, none, c', cs', rfl,
          probe_stepsTo_of_found hc' hcs' ha ha' hres hways hall.symm⟩
      | false =>
        dsimp only
        rw [hcs']
        cases hf : os.findSome? Plan.leafFault with
        | some e =>
          exact ⟨false, some e, c', cs', rfl,
            probe_stepsTo_of_fault hc' hcs' ha ha' hall.symm hf⟩
        | none =>
          have hlen : (ahead c').length < n := by
            rw [ha']
            rw [ha] at hr
            simpa using hr
          obtain ⟨yes, e, c'', cs'', hsearch, hhealthy, hto⟩ := ih c' cs' hc' hcs' hlen
          refine ⟨yes, e, c'', cs'', hsearch, hhealthy, ?_⟩
          rw [ahead_probe_of_missed none cs ha hall.symm]
          rw [ahead_probe, ha'] at hto
          exact hto

end Search

/-- **A step moves to the first row ahead**, and without rows ahead it reports the fault that
the plan shows. -/
theorem next_stepsTo {p : BasicPlan α} : ∀ c : Cursor p, Healthy c →
    StepsTo c (next .clear c) := by
  induction p using BasicPlan.induct with
  | null uid =>
    intro c hc
    cases c
    exact ⟨hc, rfl, rfl, rfl⟩
  | error uid e =>
    intro c hc
    cases c
    exact ⟨hc, rfl, rfl, rfl⟩
  | fixed uid leaf =>
    intro c hc
    cases c with
    | fixed c => exact fixed_stepsTo hc
  | probe uid p os ih _ =>
    intro c hc
    cases c with
    | probe e c cs =>
      obtain ⟨hhealthy, hcs, he⟩ := hc
      cases e with
      | some e =>
        have hfault : some e = Plan.shownFault (.probe uid p os) :=
          he.resolve_left (by simp)
        have hnil := ahead_of_shownFault (.probe (some e) c cs : Cursor (.probe uid p os))
          hfault.symm
        rw [next_probe_some]
        unfold StepsTo
        rw [hnil]
        exact ⟨⟨hhealthy, hcs, Or.inr hfault⟩, rfl, rfl, hfault⟩
      | none =>
        have hr : (ahead c).length < (pending c).length + 1 :=
          Nat.lt_succ_of_le (length_ahead_le_pending c)
        obtain ⟨yes, e, c', cs', hsearch, hto⟩ := search_stepsTo ih _ c cs hhealthy hcs hr
        rw [next_probe_clear, hsearch]
        exact hto

/-! ## Moving to the next way of reaching a result -/

/-- What a path step has to come to: it takes one of the ways left, if there is one, and leaves
everything else as it is. -/
def TakesWay {p : BasicPlan α} (c : Cursor p) (answer : Bool × Cursor p) : Prop :=
  Healthy answer.2 ∧ ahead answer.2 = ahead c ∧ result answer.2 = result c ∧
    answer.1 = decide (0 < waysLeft c) ∧ waysLeft answer.2 = waysLeft c - 1

/-- Where there is no way left, a path step that says no and changes nothing is right. -/
theorem takesWay_refl {p : BasicPlan α} {c : Cursor p} (hc : Healthy c) (hw : waysLeft c = 0) :
    TakesWay c (false, c) :=
  ⟨hc, rfl, rfl, by rw [hw]; rfl, by rw [hw]⟩

theorem fixed_takesWay {uid : Uid} {leaf : RowSet α} {c : RowCursor}
    (hc : Healthy (.fixed c : Cursor (.fixed uid leaf))) :
    TakesWay (.fixed c : Cursor (.fixed uid leaf)) (nextPath .clear (.fixed c)) := by
  rw [nextPath_fixed]
  cases hrow : leaf.currentRow c with
  | none =>
    rw [leaf.nextPath_of_none hrow]
    exact takesWay_refl hc (by rw [waysLeft_of_none hrow])
  | some row =>
    have hways : waysLeft (.fixed c : Cursor (.fixed uid leaf)) =
        row.witnesses.length - (c.path + 1) := waysLeft_fixed hrow
    rw [leaf.nextPath_clear hrow]
    by_cases hp : c.path + 1 < row.witnesses.length
    · rw [if_pos hp]
      have hways' : waysLeft (.fixed { c with path := c.path + 1 } : Cursor (.fixed uid leaf)) =
          row.witnesses.length - (c.path + 1 + 1) := waysLeft_fixed hrow
      refine ⟨hc, rfl, rfl, ?_, ?_⟩
      · exact (decide_eq_true (by omega)).symm
      · rw [hways', hways]
        omega
    · rw [if_neg hp]
      exact takesWay_refl hc (by omega)

/-- **A path step takes one of the ways left.** -/
theorem nextPath_takesWay {p : BasicPlan α} : ∀ c : Cursor p, Healthy c →
    TakesWay c (nextPath .clear c) := by
  induction p using BasicPlan.induct with
  | null uid =>
    intro c hc
    cases c
    exact takesWay_refl hc rfl
  | error uid e =>
    intro c hc
    cases c
    exact takesWay_refl hc rfl
  | fixed uid leaf =>
    intro c hc
    cases c with
    | fixed c => exact fixed_takesWay hc
  | probe uid p os ih _ =>
    intro c hc
    cases c with
    | probe e c cs =>
      obtain ⟨hhealthy, hcs, he⟩ := hc
      obtain ⟨hh, ha, hr, hy, hw⟩ := ih c hhealthy
      rw [nextPath_probe]
      exact ⟨⟨hh, hcs, he⟩, by rw [ahead_probe, ahead_probe, ha], hr, hy, hw⟩

end Cursor

end QueryPlan
