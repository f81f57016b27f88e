import QueryPlan.Proofs.Tree.Fired
import QueryPlan.Proofs.Tree.Pruning

/-!
# Exact sizes

What a tree tells about its size before anything is asked of it, against what is found when it
is.  Three kinds of node know their size.  An intersection estimates, since the smallest of its
children's sizes is no more than a guess, unless a child is known to have no results.  So an
exact size is either the length of a leaf's list or zero.

* `Cursor.size_eq` — a size does not change as the cursors move.
* `Cursor.length_rows_of_exact` — an exact size is the number of rows.
* `Cursor.contains_of_exactZero` — a tree that is known to have no results has no members,
  wherever its cursors stand and whatever its context shows.
* `Run.exact_size_is_count` — **an exact size is the number of results that a run visits.**
-/

namespace QueryPlan

/-- A run without paths visits the value of each row once. -/
theorem Plan.visitsOf_false {α : Type} (rows : List (Row α)) :
    visitsOf false rows = rows.map Row.value := by
  induction rows with
  | nil => rfl
  | cons r rs ih => rw [visitsOf_cons_false, List.map_cons, ih]

namespace Cursor

variable {α : Type}

/-! ## Sizes and cursors -/

theorem sizes_eq {ps : List (BasicPlan α)} (hps : ∀ p ∈ ps, ∀ c c' : Cursor p, size c = size c') :
    ∀ cs cs' : Cursors ps, sizes cs = sizes cs' := by
  induction ps with
  | nil =>
    intro cs cs'
    cases cs
    cases cs'
    rfl
  | cons p ps ih =>
    intro cs cs'
    cases cs with
    | cons c cs =>
      cases cs' with
      | cons c' cs' =>
        calc sizes (.cons c cs : Cursors (p :: ps)) = size c :: sizes cs := rfl
          _ = size c' :: sizes cs' := by
            rw [hps p List.mem_cons_self c c', ih (fun q hq => hps q (List.mem_cons_of_mem _ hq))]

/-- **A size does not change as the cursors move.** -/
theorem size_eq {p : BasicPlan α} : ∀ c c' : Cursor p, size c = size c' := by
  induction p using BasicPlan.induct with
  | null uid =>
    intro c c'
    cases c
    cases c'
    rfl
  | error uid e =>
    intro c c'
    cases c
    cases c'
    rfl
  | fixed uid leaf =>
    intro c c'
    cases c
    cases c'
    rfl
  | probe uid p os ih ihos =>
    intro c c'
    cases c with
    | probe e c cs =>
      cases c' with
      | probe e' c' cs' =>
        calc size (.probe e c cs : Cursor (.probe uid p os)) = meetSize (size c) (sizes cs) := rfl
          _ = meetSize (size c') (sizes cs') := by rw [ih c c', sizes_eq ihos cs cs']

/-! ## What an exact size says -/

/-- An intersection does not know its size unless it knows that it has no results. -/
theorem isExactZero_meetSize {first : Size} {others : List Size}
    (h : (meetSize first others).exact = true) : (meetSize first others).isExactZero = true := by
  unfold meetSize at h ⊢
  dsimp only at h ⊢
  split at h
  · rename_i hzero
    rw [if_pos hzero]
    rfl
  · cases h

variable [Item α]

/-- **An exact size is the number of rows.** -/
theorem length_rows_of_exact {p : BasicPlan α} {c : Cursor p} (h : (size c).exact = true) :
    (p.rows.length : Int) = (size c).value := by
  cases p with
  | null uid =>
    cases c
    rfl
  | error uid e =>
    cases c
    rfl
  | fixed uid leaf =>
    cases c
    rfl
  | probe uid p os =>
    have hzero : (size c).isExactZero = true := by
      cases c with
      | probe e c cs => exact isExactZero_meetSize h
    obtain ⟨hrows, -⟩ := rows_eq_nil_of_size hzero
    rw [hrows, (Size.isExactZero_iff.1 hzero).2]
    rfl
  | custom n => cases n

/-- **A tree that is known to have no results has no members.**  The size may have been read at
any time before the test, or after it. -/
theorem contains_of_exactZero {p : BasicPlan α} {c₀ : Cursor p}
    (h : (size c₀).isExactZero = true) (s : Signal) (x : α) (c : Cursor p) :
    (contains s x c).1 = false := by
  rcases s.eq_clear_or_error? with rfl | ⟨e, he⟩
  · rw [(contains_clear x c).1]
    exact (rows_eq_nil_of_size h).2 x
  · rw [contains_of_fired he]

end Cursor

/-! ## Runs -/

namespace Run

variable {α : Type} [Item α]

/-- **An exact size is the truth.**  If a newly built tree knows its size, then every run over it
without a limit and without paths whose context does not fire visits exactly that many results;
and if that is none, no test in the tree ever says yes, wherever its cursors stand by then. -/
theorem exact_size_is_count (p : BasicPlan α)
    (hexact : (Operator.size (Cursor.start p)).exact = true) :
    (∀ {ω : Type} (r : Run ω) (visit : Cursor p → ω → ω) (w : ω), r.options.limit = none →
      r.options.paths = false → (r.loop visit).Unfired (.start (Cursor.start p) w) →
      ∀ turns, turnsFor (Cursor.start p) ≤ turns →
        ∃ rep, r.observed visit turns (Cursor.start p) w = some rep ∧
          rep.world.2.map Operator.result = (p.rows.map Row.value).map some ∧
          (rep.world.2.length : Int) = (Operator.size (Cursor.start p)).value) ∧
    ((Operator.size (Cursor.start p)).value = 0 →
      ∀ (c : Cursor p) (s : Signal) (x : α), (Operator.contains s x c).1 = false) := by
  refine ⟨fun r visit w hlim hpaths hclear turns hturns => ?_, fun hvalue c s x => ?_⟩
  · obtain ⟨rep, hrep, hvisits, -, -⟩ := observed_start hclear hturns
    rw [RunOptions.cut_of_limit_eq_none hlim, hpaths, Plan.visits, Plan.visitsOf_false] at hvisits
    refine ⟨rep, hrep, hvisits, ?_⟩
    have hlength : rep.world.2.length = p.rows.length := by
      simpa using congrArg List.length hvisits
    calc (rep.world.2.length : Int) = p.rows.length := by rw [hlength]
      _ = (Operator.size (Cursor.start p)).value := Cursor.length_rows_of_exact hexact
  · exact Cursor.contains_of_exactZero (Size.isExactZero_iff.2 ⟨hexact, hvalue⟩) s x c

/-- A leaf with an equal pair of rows knows that it has three, and a run visits three. -/
def pairAndOne : BasicPlan Ref := .fixed ⟨0⟩ (.ofValues [⟨[1]⟩, ⟨[1]⟩, ⟨[2]⟩])

theorem exact_size_is_count_pairAndOne :
    (Operator.size (Cursor.start pairAndOne)).exact = true ∧
    turnsFor (Cursor.start pairAndOne) ≤ 8 ∧
    (∃ rep, (Run.new fun w : Unit => (.clear, w)).observed (fun _ w => w) 8
        (Cursor.start pairAndOne) () = some rep ∧ (rep.world.2.length : Int) = 3) ∧
    (Operator.size (Cursor.start emptyMeet)).exact = true ∧
    (Operator.contains .clear ⟨[1]⟩ (Cursor.start emptyMeet)).1 = false := by
  have hexact : (Operator.size (Cursor.start pairAndOne)).exact = true := by decide
  have hexact' : (Operator.size (Cursor.start emptyMeet)).exact = true := by decide
  have hturns : turnsFor (Cursor.start pairAndOne) ≤ 8 := by decide
  obtain ⟨rep, hrep, -, hcount⟩ := (exact_size_is_count pairAndOne hexact).1
    (Run.new fun w : Unit => (.clear, w)) (fun _ w => w) () rfl rfl
    (Loop.unfired_of_look (fun _ => rfl) _) 8 hturns
  exact ⟨hexact, hturns, ⟨rep, hrep, hcount⟩, hexact',
    (exact_size_is_count emptyMeet hexact').2 (by decide) _ _ _⟩

end Run

end QueryPlan
