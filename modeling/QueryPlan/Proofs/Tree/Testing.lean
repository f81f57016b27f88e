import QueryPlan.Proofs.Run.Transcript
import QueryPlan.Proofs.Tree.Replay
import QueryPlan.Proofs.Tree.Sizes

/-!
# Membership tests leave no trace

A test goes into every child of an intersection, also into the very leaf whose rows a run is in
the middle of, and leaves a mark wherever it comes.  The marks are counts, which no request and
no view but the costs looks at.  So a tested cursor stays alike to one that was not tested, and
alike cursors answer alike.

* `Cursor.after_alike`, `Cursor.answer_alike` — every request leaves alike cursors alike, and
  every question gets the same answer from both.
* `Cursor.test_alike` — a test under a context that shows nothing leaves a cursor alike to what
  it was.
* `Cursor.tests_leave_no_trace` — **tests can be left out of any list of questions.**
-/

namespace QueryPlan

variable {α : Type}

/-! ## Leaves -/

namespace RowCursor

theorem close_fst (c : RowCursor) : c.close.1 = Cursor.failureOf c.err := by
  unfold close
  dsimp only
  cases hc : c.closed <;> cases he : c.err <;> simp [he, Cursor.failureOf]

variable {c c' : RowCursor}

theorem Alike.rewind (h : c.Alike c') : c.rewind.Alike c'.rewind where
  progress := congrArg Progress.rewind h.progress
  index := rfl
  current := rfl
  path := rfl
  err := h.err

theorem Alike.close (h : c.Alike c') : c.close.1 = c'.close.1 ∧ c.close.2.Alike c'.close.2 := by
  obtain ⟨n, hn⟩ := c.exists_released
  obtain ⟨n', hn'⟩ := c'.exists_released
  refine ⟨by rw [close_fst, close_fst, h.err], ?_⟩
  rw [hn, hn']
  exact ⟨h.progress, h.index, h.current, h.path, h.err⟩

theorem Alike.tested (h : c.Alike c') (yes : Bool) : (c.tested yes).Alike c' :=
  ⟨h.progress, h.index, h.current, h.path, h.err⟩

end RowCursor

namespace Cursor

/-! ## Alike cursors -/

theorem alike_refl {p : BasicPlan α} (c : Cursor p) : Alike c c := by
  induction p, c using induct (Q := fun _ cs => AlikeAll cs cs) with
  | null uid => exact .null
  | error uid e => exact .error
  | fixed uid leaf c => exact .fixed ⟨rfl, rfl, rfl, rfl, rfl⟩
  | probe uid p os e c cs ih ihcs => exact .probe e ih ihcs
  | nil => exact .nil
  | cons p ps c cs ih ihcs => exact .cons ih ihcs

theorem state_alike {p : BasicPlan α} : ∀ {p' : BasicPlan α} {c : Cursor p} {c' : Cursor p'},
    Alike c c' → state c = state c' := by
  induction p using BasicPlan.induct with
  | null uid =>
    intro p' c c' h
    cases h
    rfl
  | error uid e =>
    intro p' c c' h
    cases h
    rfl
  | fixed uid leaf =>
    intro p' c c' h
    cases h with
    | fixed h => exact congrArg Progress.state h.progress
  | probe uid p os ih _ =>
    intro p' c c' h
    cases h with
    | probe e h _ =>
      cases e with
      | none =>
        have hc := ih h
        exact hc
      | some e => rfl

/-! ### Rewinding and releasing -/

theorem rewindAll_alike {ps : List (BasicPlan α)}
    (hps : ∀ p ∈ ps, ∀ {p' : BasicPlan α} {c : Cursor p} {c' : Cursor p'}, Alike c c' →
      Alike (rewind c) (rewind c')) :
    ∀ {ps' : List (BasicPlan α)} {cs : Cursors ps} {cs' : Cursors ps'}, AlikeAll cs cs' →
      AlikeAll (rewindAll cs) (rewindAll cs') := by
  induction ps with
  | nil =>
    intro ps' cs cs' h
    cases h
    exact .nil
  | cons p ps ih =>
    intro ps' cs cs' h
    cases h with
    | cons h hs =>
      exact .cons (hps p List.mem_cons_self h)
        (ih (fun q hq => hps q (List.mem_cons_of_mem _ hq)) hs)

theorem rewind_alike {p : BasicPlan α} : ∀ {p' : BasicPlan α} {c : Cursor p} {c' : Cursor p'},
    Alike c c' → Alike (rewind c) (rewind c') := by
  induction p using BasicPlan.induct with
  | null uid =>
    intro p' c c' h
    cases h
    exact .null
  | error uid e =>
    intro p' c c' h
    cases h
    exact .error
  | fixed uid leaf =>
    intro p' c c' h
    cases h with
    | fixed h => exact .fixed h.rewind
  | probe uid p os ih ihos =>
    intro p' c c' h
    cases h with
    | probe e h hs => exact .probe e (ih h) (rewindAll_alike ihos hs)

/-- Alike outcomes: the same report, and cursors that are alike. -/
def ReleaseAlike {p p' : BasicPlan α} (r : Except QueryError Unit × Cursor p)
    (r' : Except QueryError Unit × Cursor p') : Prop :=
  r.1 = r'.1 ∧ Alike r.2 r'.2

theorem closeAll_alike {ps : List (BasicPlan α)}
    (hps : ∀ p ∈ ps, ∀ {p' : BasicPlan α} {c : Cursor p} {c' : Cursor p'}, Alike c c' →
      ReleaseAlike (close c) (close c')) :
    ∀ {ps' : List (BasicPlan α)} {cs : Cursors ps} {cs' : Cursors ps'}, AlikeAll cs cs' →
      (closeAll cs).1 = (closeAll cs').1 ∧ AlikeAll (closeAll cs).2 (closeAll cs').2 := by
  induction ps with
  | nil =>
    intro ps' cs cs' h
    cases h
    exact ⟨rfl, .nil⟩
  | cons p ps ih =>
    intro ps' cs cs' h
    cases h with
    | cons h hs =>
      obtain ⟨hreport, hafter⟩ := hps p List.mem_cons_self h
      obtain ⟨hreports, hafters⟩ := ih (fun q hq => hps q (List.mem_cons_of_mem _ hq)) hs
      exact ⟨congrArg₂ firstFailure hreport hreports, .cons hafter hafters⟩

theorem close_alike {p : BasicPlan α} : ∀ {p' : BasicPlan α} {c : Cursor p} {c' : Cursor p'},
    Alike c c' → ReleaseAlike (close c) (close c') := by
  induction p using BasicPlan.induct with
  | null uid =>
    intro p' c c' h
    cases h
    exact ⟨rfl, .null⟩
  | error uid e =>
    intro p' c c' h
    cases h
    exact ⟨rfl, .error⟩
  | fixed uid leaf =>
    intro p' c c' h
    cases h with
    | fixed h =>
      obtain ⟨hreport, hafter⟩ := h.close
      exact ⟨hreport, .fixed hafter⟩
  | probe uid p os ih ihos =>
    intro p' c c' h
    cases h with
    | probe e h hs =>
      obtain ⟨hreport, hafter⟩ := ih h
      obtain ⟨hreports, hafters⟩ := closeAll_alike ihos hs
      exact ⟨congrArg (firstFailure (failureOf e)) (congrArg₂ firstFailure hreport hreports),
        .probe e hafter hafters⟩

/-! ### Questions -/

section Questions

variable [Item α] {p : BasicPlan α} {c c' : Cursor p}

/-- **Every request leaves alike cursors alike.** -/
theorem after_alike (h : Alike c c') (q : Request α) : Alike (q.after c) (q.after c') := by
  cases q with
  | next s => exact (next_alike s h).2
  | nextPath s => exact (nextPath_alike s h).2
  | contains s x => exact (contains_alike s x h).2
  | rewind => exact rewind_alike h
  | close => exact (close_alike h).2
  | read => exact h

/-- **Every question gets the same answer from alike cursors.** -/
theorem answer_alike (h : Alike c c') (q : Question α) : q.answer c = q.answer c' := by
  cases q with
  | of q =>
    cases q with
    | next s => exact congrArg Answer.word (next_alike s h).1
    | nextPath s => exact congrArg Answer.word (nextPath_alike s h).1
    | contains s x => exact congrArg Answer.word (contains_alike s x h).1
    | rewind => rfl
    | close => exact congrArg Answer.release (close_alike h).1
    | read => rfl
  | result => exact congrArg Answer.result (result_alike h)
  | bindings dst => exact congrArg Answer.bindings (publish_alike h dst)
  | state => exact congrArg Answer.state (state_alike h)
  | err => exact congrArg Answer.err (err_alike h)
  | size => exact congrArg Answer.size (size_eq c c')

end Questions

/-! ## Tests -/

section Tests

variable [Item α]

theorem alikeAll_of_touched {q : Request α} {ps : List (BasicPlan α)}
    (hps : ∀ p ∈ ps, ∀ {c c' : Cursor p}, Alike c c' → Alike (q.after c) c') :
    ∀ {cs cs₁ cs' : Cursors ps}, Touched q cs cs₁ → AlikeAll cs cs' → AlikeAll cs₁ cs' := by
  induction ps with
  | nil =>
    intro cs cs₁ cs' htouched h
    cases htouched
    exact h
  | cons p ps ih =>
    intro cs cs₁ cs' htouched h
    cases htouched with
    | none _ => exact h
    | cons c htouched =>
      cases h with
      | cons h hs =>
        exact .cons (hps p List.mem_cons_self h)
          (ih (fun q hq => hps q (List.mem_cons_of_mem _ hq)) htouched hs)

/-- What leaves a leaf alike to what it was leaves a whole tree so, unless it is a step. -/
theorem alike_of_after {q : Request α} (hq : ∀ s, q ≠ .next s)
    (hleaf : ∀ {leaf : RowSet α} {c c₁ c' : RowCursor}, leaf.Makes c q c₁ → c.Alike c' →
      c₁.Alike c')
    {p : BasicPlan α} : ∀ {c c' : Cursor p}, Alike c c' → Alike (q.after c) c' := by
  induction p using BasicPlan.induct with
  | null uid =>
    intro c c' h
    cases h
    cases q <;> exact .null
  | error uid e =>
    intro c c' h
    cases h
    cases q <;> exact .error
  | fixed uid leaf =>
    intro c c' h
    cases h with
    | @fixed _ _ _ c c' h =>
      obtain ⟨c₁, hafter, hmakes⟩ := after_fixed uid leaf q c
      rw [hafter]
      exact .fixed (hleaf hmakes h)
  | probe uid p os ih ihos =>
    intro c c' h
    cases h with
    | @probe _ _ _ _ _ _ e c c' cs cs' h hs =>
      obtain ⟨cs₁, hafter, htouched⟩ := after_probe uid hq e c cs
      rw [hafter]
      exact .probe e (ih h) (alikeAll_of_touched ihos htouched hs)

/-- **A test under a context that shows nothing leaves a cursor alike to what it was.** -/
theorem test_alike (x : α) {p : BasicPlan α} {c c' : Cursor p} (h : Alike c c') :
    Alike ((Request.contains .clear x).after c) c' := by
  refine alike_of_after (q := .contains .clear x) nofun (fun hmakes h => ?_) h
  cases hmakes with
  | same _ htest => exact absurd rfl (htest _ _)
  | stoppedTest he => cases he
  | tested yes => exact h.tested yes

/-- Tests under contexts that show nothing are hidden. -/
theorem hides_tests (p : BasicPlan α) :
    Operator.Hides (Alike : Cursor p → Cursor p → Prop)
      (fun q => q.isTest = true → q.request.Clear) Question.isTest where
  skip h q hq htest := by
    cases q with
    | of q =>
      cases q with
      | contains s x =>
        obtain rfl : s = .clear := hq rfl
        exact test_alike x h
      | _ => cases htest
    | _ => cases htest
  answer h q _ _ := answer_alike h q
  after h q _ _ := after_alike h q.request

/-- **Membership tests leave no trace.**  Put any questions to a tree, wherever its cursors stand,
one after the other and each with a context of its own, in which nothing but the tests need be
under contexts that show nothing.  Then without the tests all other questions get the same
answers, and whatever was asked before a test, it answers whether the plan has the candidate. -/
theorem tests_leave_no_trace (p : BasicPlan α) (c : Cursor p) (qs : List (Question α))
    (hclear : ∀ q ∈ qs, q.isTest = true → q.request.Clear) :
    (Question.transcript qs c).filter (fun entry => !entry.1.isTest) =
      Question.transcript (qs.filter fun q => !q.isTest) c ∧
    ∀ s x a, (Question.of (.contains s x), a) ∈ Question.transcript qs c →
      a = .word (p.has x) := by
  refine ⟨(hides_tests p).transcript_filter (alike_refl c) hclear, fun s x a ha => ?_⟩
  obtain ⟨before, after, rfl, rfl⟩ := Question.exists_of_mem_transcript ha
  obtain rfl : s = .clear := hclear (.of (.contains s x)) (by simp) rfl
  exact congrArg Answer.word (contains_clear x _).1

end Tests

/-- Questions with two tests among them; the last step is made under a fired context. -/
def withTests : List (Question Ref) :=
  [.of (.contains .clear ⟨[2]⟩), .of (.nextPath .clear), .result, .of (.contains .clear ⟨[1]⟩),
    .of .rewind, .of (.next .cancelled), .err]

theorem tests_leave_no_trace_halfway :
    (∀ q ∈ withTests, q.isTest = true → q.request.Clear) ∧
    (Question.transcript withTests halfway).filter (fun entry => !entry.1.isTest) =
      Question.transcript [.of (.nextPath .clear), .result, .of .rewind, .of (.next .cancelled),
        .err] halfway ∧
    ∃ a, (Question.of (.contains .clear ⟨[2]⟩), a) ∈ Question.transcript withTests halfway ∧
      a = .word true := by
  have hclear : ∀ q ∈ withTests, q.isTest = true → q.request.Clear := by
    simp [withTests, Question.isTest, Question.request, Request.Clear, Request.signal]
  obtain ⟨hothers, htests⟩ := tests_leave_no_trace twoWays halfway withTests hclear
  exact ⟨hclear, hothers, _, List.mem_cons_self, htests _ _ _ List.mem_cons_self⟩

end Cursor

end QueryPlan
