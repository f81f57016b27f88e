import QueryPlan.Proofs.Run.Firing
import QueryPlan.Proofs.Tree.Stopping

/-!
# Calls under a fired context

What the three operations that are handed a context do when it has fired, wherever the cursors
stand.  None of them finds anything; they differ in the node that takes the error down.  A step
stops the root, and only if the root still looks at its context (`Cursor.heeds`).  A path step
and a test go down the chain of first children and stop the leaf at its end.

* `Cursor.next_of_fired`, `Cursor.nextPath_of_fired`, `Cursor.contains_of_fired` — the three
  operations, answer and cursor.
* `Context.error?_of_observed` — which error a fired context reports.
* `Cursor.fired_context_is_reported` — **nothing is found under a fired context, and a root that
  could still have gone on reports it.**
-/

namespace QueryPlan

/-! ## Which error a fired context reports -/

/-- A context has fired exactly if its token was cancelled or its deadline has passed. -/
theorem Context.fired_iff {c : Context} {b : Switchboard} {now : Instant} :
    (c.signal b now).fired = true ↔ b.isCancelled c.token = true ∨ c.isExpired now = true := by
  unfold Context.signal
  by_cases hc : b.isCancelled c.token = true
  · simp [hc, Signal.fired, Signal.error?]
  · by_cases he : c.isExpired now = true
    · simp [hc, he, Signal.fired, Signal.error?]
    · simp [hc, he, Signal.fired, Signal.error?]

/-- Cancellation takes precedence over the deadline. -/
theorem Context.error?_of_observed {c : Context} {b : Switchboard} {now : Instant}
    (h : b.isCancelled c.token = true ∨ c.isExpired now = true) :
    (c.signal b now).error? =
      some (if b.isCancelled c.token then .cancelled else .deadlineExceeded) :=
  Context.error?_of_fired (Context.fired_iff.2 h)

theorem Signal.check_of_error? {s : Signal} {e : QueryError} (he : s.error? = some e) :
    s.check = .error e := by
  unfold check
  rw [he]

/-! ## Leaves -/

namespace RowSet

variable {α : Type} (leaf : RowSet α) {s : Signal} {e : QueryError}

/-- A leaf that is not at its end is stopped by a step. -/
theorem next_of_fired (he : s.error? = some e) (c : RowCursor) :
    leaf.next s c = (false, if c.progress.state.isTerminal then c else c.fail e) := by
  have hends := leaf.next_ends s c
  generalize leaf.next s c = answer at hends ⊢
  cases hends with
  | terminal ht => rw [if_pos ht]
  | fired ht he' =>
    obtain rfl := Option.some.inj (he.symm.trans he')
    rw [if_neg (by simp [ht])]
  | spent _ hs _ => exact absurd hs (Signal.ne_clear_of_error? he)
  | moved _ hs _ => exact absurd hs (Signal.ne_clear_of_error? he)

/-- A leaf that stands on a row is stopped by a path step. -/
theorem nextPath_of_fired (he : s.error? = some e) (c : RowCursor) :
    leaf.nextPath s c = (false, if (leaf.result c).isSome then c.fail e else c) := by
  have hends := leaf.nextPath_ends s c
  generalize leaf.nextPath s c = answer at hends ⊢
  cases hends with
  | off hr =>
    rw [result, hr]
    rfl
  | fired hr he' =>
    obtain rfl := Option.some.inj (he.symm.trans he')
    rw [result, hr]
    rfl
  | spent _ hs _ => exact absurd hs (Signal.ne_clear_of_error? he)
  | moved _ hs _ => exact absurd hs (Signal.ne_clear_of_error? he)

/-- Every leaf is stopped by a test. -/
theorem contains_of_fired [BEq α] (he : s.error? = some e) (x : α) (c : RowCursor) :
    leaf.contains s x c = (false, c.fail e) := by
  have hends := leaf.contains_ends s x c
  generalize leaf.contains s x c = answer at hends ⊢
  cases hends with
  | fired he' =>
    obtain rfl := Option.some.inj (he.symm.trans he')
    rfl
  | tested _ hs => exact absurd hs (Signal.ne_clear_of_error? he)

end RowSet

namespace Cursor

variable {α : Type} {p : BasicPlan α}

/-! ## Who takes the error down -/

/-- Does a step of the root look at its context?  A leaf does until it comes to its end, an
intersection until an error stops it. -/
def heeds : {p : BasicPlan α} → Cursor p → Bool
  | .fixed _ _, .fixed c => !c.progress.state.isTerminal
  | .probe _ _ _, .probe e _ _ => e.isNone
  | _, _ => false

theorem heeds_fixed {uid : Uid} {leaf : RowSet α} {c : RowCursor} :
    heeds (.fixed c : Cursor (.fixed uid leaf)) = !c.progress.state.isTerminal := rfl

/-- The cursors after an error stopped the root. -/
def stopRoot (e : QueryError) : {p : BasicPlan α} → Cursor p → Cursor p
  | .fixed _ _, .fixed c => .fixed (c.fail e)
  | .probe _ _ _, .probe _ c cs => .probe (some e) c cs
  | _, c => c

/-- The cursors after an error stopped the leaf at the end of the chain of first children. -/
def stopTip (e : QueryError) : {p : BasicPlan α} → Cursor p → Cursor p
  | .fixed _ _, .fixed c => .fixed (c.fail e)
  | .probe _ _ _, .probe e' c cs => .probe e' (stopTip e c) cs
  | _, c => c

/-- A root that has no error and is not at its end looks at its context: it is a leaf with rows
or an intersection. -/
theorem heeds_of_state {c : Cursor p} (herr : err c = none)
    (hstate : (state c).isTerminal = false) : heeds c = true := by
  cases p with
  | null uid =>
    cases c
    cases hstate
  | error uid e => cases herr
  | fixed uid leaf =>
    cases c with
    | fixed c =>
      have ht : c.progress.state.isTerminal = false := hstate
      rw [heeds_fixed, ht]
      rfl
  | probe uid p os =>
    cases c with
    | probe e c cs =>
      obtain rfl : e = none := herr
      rfl
  | custom n => cases n

/-- A root that looks at its context has the error that stops it, and has failed. -/
theorem stopRoot_reports {c : Cursor p} (e : QueryError) (h : heeds c = true) :
    err (stopRoot e c) = some e ∧ state (stopRoot e c) = .failed := by
  cases p with
  | fixed uid leaf =>
    cases c
    exact ⟨rfl, rfl⟩
  | probe uid p os =>
    cases c
    exact ⟨rfl, rfl⟩
  | custom n => cases n
  | _ => cases h

/-! ## The operations -/

section Operations

variable {s : Signal} {e : QueryError}

/-- **A path step under a fired context** stops the leaf at the end of the chain of first
children, if the tree stands on a result. -/
theorem nextPath_of_fired (he : s.error? = some e) : ∀ c : Cursor p,
    nextPath s c = (false, if (result c).isSome then stopTip e c else c) := by
  induction p using BasicPlan.induct with
  | null uid =>
    intro c
    cases c
    rfl
  | error uid e =>
    intro c
    cases c
    rfl
  | fixed uid leaf =>
    intro c
    cases c with
    | fixed c =>
      rw [nextPath_fixed, leaf.nextPath_of_fired he, result_fixed]
      by_cases hr : (leaf.result c).isSome = true
      · rw [if_pos hr, if_pos hr]
        rfl
      · rw [if_neg hr, if_neg hr]
  | probe uid p os ih _ =>
    intro c
    cases c with
    | probe e' c cs =>
      have hresult : result (.probe e' c cs : Cursor (.probe uid p os)) = result c := rfl
      rw [nextPath_probe, ih c, hresult]
      by_cases hr : (result c).isSome = true
      · rw [if_pos hr, if_pos hr]
        rfl
      · rw [if_neg hr, if_neg hr]

variable [Item α]

/-- **A step under a fired context** stops the root, if it looks at its context. -/
theorem next_of_fired (he : s.error? = some e) (c : Cursor p) :
    next s c = (false, if heeds c then stopRoot e c else c) := by
  cases p with
  | null uid =>
    cases c
    rfl
  | error uid e =>
    cases c
    rfl
  | fixed uid leaf =>
    cases c with
    | fixed c =>
      rw [next_fixed, leaf.next_of_fired he, heeds_fixed]
      cases c.progress.state.isTerminal <;> rfl
  | probe uid p os =>
    cases c with
    | probe e' c cs =>
      cases e' with
      | none =>
        rw [next_probe_fired he]
        rfl
      | some e' =>
        rw [next_probe_some]
        rfl
  | custom n => cases n

/-- **A test under a fired context** stops the leaf at the end of the chain of first children;
the children behind the first are not asked. -/
theorem contains_of_fired (he : s.error? = some e) (x : α) : ∀ c : Cursor p,
    contains s x c = (false, stopTip e c) := by
  induction p using BasicPlan.induct with
  | null uid =>
    intro c
    cases c
    rfl
  | error uid e =>
    intro c
    cases c
    rfl
  | fixed uid leaf =>
    intro c
    cases c with
    | fixed c =>
      rw [contains_fixed, leaf.contains_of_fired he]
      rfl
  | probe uid p os ih _ =>
    intro c
    cases c with
    | probe e' c cs =>
      rw [contains_probe, ih c]
      rfl

/-! ## Reporting -/

/-- **A fired context yields nothing and is reported.**  Wherever the cursors of a tree stand,
under a context whose token was cancelled or whose deadline has passed no step, no path step
and no test finds anything.  If the root has no error and is not at its end, which no node but
a leaf with rows and an intersection can be, then a step leaves it failed with the very error
that a check of the context gives: the cancellation if there was one, whatever the deadline. -/
theorem fired_context_is_reported (p : BasicPlan α) (c : Cursor p) (ctx : Context)
    (board : Switchboard) (now : Instant)
    (hfired : board.isCancelled ctx.token = true ∨ ctx.isExpired now = true) :
    (Operator.next (ctx.signal board now) c).1 = false ∧
    (Operator.nextPath (ctx.signal board now) c).1 = false ∧
    (∀ x, (Operator.contains (ctx.signal board now) x c).1 = false) ∧
    (Operator.err c = none → (Operator.state c).isTerminal = false →
      ∃ e, e = (if board.isCancelled ctx.token then .cancelled else .deadlineExceeded) ∧
        (ctx.signal board now).check = .error e ∧
        Operator.err (Operator.next (ctx.signal board now) c).2 = some e ∧
        Operator.state (Operator.next (ctx.signal board now) c).2 = .failed) := by
  have he := Context.error?_of_observed hfired
  have hnext := next_of_fired he c
  refine ⟨congrArg Prod.fst hnext, congrArg Prod.fst (nextPath_of_fired he c),
    fun x => congrArg Prod.fst (contains_of_fired he x c), fun herr hstate => ?_⟩
  have hheeds := heeds_of_state herr hstate
  rw [if_pos hheeds] at hnext
  have hafter : (Operator.next (ctx.signal board now) c).2 = stopRoot _ c :=
    congrArg Prod.snd hnext
  rw [hafter]
  exact ⟨_, rfl, Signal.check_of_error? he, stopRoot_reports _ hheeds⟩

end Operations

/-- A context that was cancelled and whose deadline has passed as well. -/
def firedTwice : Context := (Context.ofToken ⟨0⟩).withDeadline 5

/-- An intersection in the middle of its results reports the cancellation. -/
theorem fired_context_is_reported_onShared :
    (Switchboard.mk [true]).isCancelled firedTwice.token = true ∧
    firedTwice.isExpired 9 = true ∧
    Operator.err onShared = none ∧ (Operator.state onShared).isTerminal = false ∧
    (Operator.next (firedTwice.signal ⟨[true]⟩ 9) onShared).1 = false ∧
    Operator.err (Operator.next (firedTwice.signal ⟨[true]⟩ 9) onShared).2 = some .cancelled ∧
    Operator.state (Operator.next (firedTwice.signal ⟨[true]⟩ 9) onShared).2 = .failed := by
  have hcancelled : (Switchboard.mk [true]).isCancelled firedTwice.token = true := by decide
  have herr : Operator.err onShared = none := by decide
  have hstate : (Operator.state onShared).isTerminal = false := by decide
  obtain ⟨hno, -, -, hreport⟩ :=
    fired_context_is_reported _ onShared firedTwice ⟨[true]⟩ 9 (Or.inl hcancelled)
  obtain ⟨_, rfl, -, herr', hstate'⟩ := hreport herr hstate
  exact ⟨hcancelled, by decide, herr, hstate, hno, herr', hstate'⟩

end Cursor

end QueryPlan
