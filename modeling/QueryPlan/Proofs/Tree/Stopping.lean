import QueryPlan.Proofs.Tree.Requests

/-!
# Stopped trees

What stays true of a tree once its root has run out of results or an error has stopped it,
whatever is asked of it afterwards and under whatever contexts.

* `Cursor.Over`, `Cursor.Stopped` — the ways in which a root can be at its end: for now, or
  for good.
* `Cursor.nothing_after_end` — after a step that found nothing no step finds anything until
  the cursors go back to the start, and after an error not even then.
* `Cursor.errors_after_error` — which error the root of a stopped tree has.  It keeps the one
  that stopped it, except that a membership test under a fired context replaces the error of
  a leaf (`Cursor.tested_leaf_changes_error`).
-/

namespace QueryPlan

/-! ## Leaves -/

namespace RowCursor

/-- What holds of a leaf's cursor at any time: the state tells whether there is an error, and
a cursor at its end stands on no row. -/
structure Sound (c : RowCursor) : Prop where
  /-- The leaf has failed exactly if there is an error. -/
  failed_iff : c.progress.state = .failed ↔ c.err.isSome = true
  /-- At the end there is no current row. -/
  parked : c.progress.state.isTerminal = true → c.current = none

theorem sound_start : Sound .start where
  failed_iff := by decide
  parked := by decide

variable {c : RowCursor}

theorem Sound.isTerminal (h : c.Sound) {e : QueryError} (he : c.err = some e) :
    c.progress.state.isTerminal = true := by
  have hfailed : c.progress.state = .failed := h.failed_iff.2 (by rw [he]; rfl)
  rw [hfailed]
  rfl

/-- A leaf that is not at its end has no error. -/
theorem Sound.err_eq_none (h : c.Sound) (ht : c.progress.state.isTerminal = false) :
    c.err = none := by
  cases he : c.err with
  | none => rfl
  | some e =>
    rw [h.isTerminal he] at ht
    cases ht

theorem sound_fail (c : RowCursor) (e : QueryError) : (c.fail e).Sound where
  failed_iff := ⟨fun _ => rfl, fun _ => rfl⟩
  parked := fun _ => rfl

theorem Sound.spent (h : c.Sound) (ht : c.progress.state.isTerminal = false) : c.spent.Sound where
  failed_iff := by
    have herr : c.spent.err = none := h.err_eq_none ht
    have hstate : c.spent.progress.state = .exhausted := rfl
    simp [herr, hstate]
  parked := fun _ => rfl

theorem Sound.onto (h : c.Sound) (ht : c.progress.state.isTerminal = false) : c.onto.Sound where
  failed_iff := by
    have herr : c.onto.err = none := h.err_eq_none ht
    have hstate : c.onto.progress.state = .positioned := rfl
    simp [herr, hstate]
  parked := fun hc => by cases hc

theorem Sound.rewind (h : c.Sound) : c.rewind.Sound where
  failed_iff := by
    have herr : c.rewind.err = c.err := rfl
    rw [state_rewind, herr, ← h.failed_iff]
    by_cases hf : c.progress.state = .failed
    · simp [hf]
    · simp [hf]
  parked := fun _ => rfl

/-- **What a request makes of a sound leaf is sound.** -/
theorem Sound.of_makes {α : Type} {leaf : RowSet α} {q : Request α} {c' : RowCursor}
    (h : c.Sound) (hmakes : leaf.Makes c q c') : c'.Sound := by
  cases hmakes with
  | same _ _ => exact h
  | stopped _ _ => exact sound_fail c _
  | spent ht _ => exact h.spent ht
  | onto ht _ => exact h.onto ht
  | stoppedPath _ _ => exact sound_fail c _
  | along _ => exact ⟨h.failed_iff, h.parked⟩
  | stoppedTest _ => exact sound_fail c _
  | tested _ => exact ⟨h.failed_iff, h.parked⟩
  | rewound => exact h.rewind
  | released _ => exact ⟨h.failed_iff, h.parked⟩

/-- A leaf at its end stays there until it is rewound. -/
theorem isTerminal_of_makes {α : Type} {leaf : RowSet α} {q : Request α} {c' : RowCursor}
    (hmakes : leaf.Makes c q c') (hq : q.KeepsPlace)
    (h : c.progress.state.isTerminal = true) : c'.progress.state.isTerminal = true := by
  cases hmakes with
  | same _ _ => exact h
  | stopped _ _ => rfl
  | spent _ _ => rfl
  | onto ht _ =>
    rw [h] at ht
    cases ht
  | stoppedPath _ _ => rfl
  | along _ => exact h
  | stoppedTest _ => rfl
  | tested _ => exact h
  | rewound => cases hq
  | released _ => exact h

/-- A leaf that has failed stays so. -/
theorem failed_of_makes {α : Type} {leaf : RowSet α} {q : Request α} {c' : RowCursor}
    (hmakes : leaf.Makes c q c') (h : c.progress.state = .failed) :
    c'.progress.state = .failed := by
  have hterminal : c.progress.state.isTerminal = true := by
    rw [h]
    rfl
  cases hmakes with
  | same _ _ => exact h
  | stopped _ _ => rfl
  | spent ht _ =>
    rw [hterminal] at ht
    cases ht
  | onto ht _ =>
    rw [hterminal] at ht
    cases ht
  | stoppedPath _ _ => rfl
  | along _ => exact h
  | stoppedTest _ => rfl
  | tested _ => exact h
  | rewound => rw [state_rewind, if_pos h]
  | released _ => exact h

theorem close_of_err {e : QueryError} (he : c.err = some e) : c.close.1 = .error e := by
  have hkeeps : (if c.closed then c
      else { c with closed := true, releases := c.releases + 1 }).err = some e := by
    split <;> exact he
  unfold close
  dsimp only
  rw [hkeeps]

end RowCursor

/-- The error of a stopped root after a request: a membership test under a fired context
replaces the error of a leaf, and nothing else replaces an error. -/
def Plan.errAfter {α : Type} (p : BasicPlan α) (e : QueryError) (q : Request α) : QueryError :=
  match p, q with
  | .fixed _ _, .contains s _ => s.error?.getD e
  | _, _ => e

/-- A sound leaf with an error has that error after a request, or the one that stopped a
test. -/
theorem RowCursor.Sound.err_of_makes {α : Type} {leaf : RowSet α} {c c' : RowCursor}
    {q : Request α} (h : c.Sound) (uid : Uid) (hmakes : leaf.Makes c q c') {e : QueryError}
    (he : c.err = some e) : c'.err = some (Plan.errAfter (.fixed uid leaf) e q) := by
  have hterminal := h.isTerminal he
  have hcurrent := h.parked hterminal
  cases hmakes with
  | same _ htest =>
    rw [he]
    cases q with
    | contains s x => exact absurd rfl (htest s x)
    | _ => rfl
  | stopped ht _ =>
    rw [hterminal] at ht
    cases ht
  | spent ht _ =>
    rw [hterminal] at ht
    cases ht
  | onto ht _ =>
    rw [hterminal] at ht
    cases ht
  | stoppedPath hr _ =>
    rw [hcurrent] at hr
    cases hr
  | along hr =>
    rw [hcurrent] at hr
    cases hr
  | @stoppedTest s x e' he' =>
    show some e' = some (s.error?.getD e)
    rw [he']
    rfl
  | tested _ => exact he
  | rewound => exact he
  | released _ => exact he

namespace Cursor

variable {α : Type} [Item α] {p : BasicPlan α}

/-! ## At the end -/

/-- Is the root at its end until its cursors go back to the start? -/
def Over : {p : BasicPlan α} → Cursor p → Prop
  | .null _, _ => True
  | .error _ _, _ => True
  | .fixed _ _, .fixed c => c.progress.state.isTerminal = true
  | .probe _ _ _, .probe e c _ => e.isSome = true ∨ Over c

/-- Is the root at its end for good? -/
def Stopped : {p : BasicPlan α} → Cursor p → Prop
  | .null _, _ => False
  | .error _ _, _ => True
  | .fixed _ _, .fixed c => c.progress.state = .failed
  | .probe _ _ _, .probe e _ _ => e.isSome = true

/-- **A step that finds nothing leaves the root at its end.** -/
theorem over_of_next (s : Signal) :
    ∀ c : Cursor p, (next s c).1 = false → Over (next s c).2 := by
  induction p using BasicPlan.induct generalizing s with
  | null uid =>
    intro c _
    cases c
    trivial
  | error uid e =>
    intro c _
    cases c
    trivial
  | fixed uid leaf =>
    intro c
    cases c with
    | fixed c =>
      have hends := leaf.next_ends s c
      rw [next_fixed]
      generalize leaf.next s c = answer at hends ⊢
      cases hends with
      | terminal ht => exact fun _ => ht
      | fired _ _ => exact fun _ => rfl
      | spent _ _ _ => exact fun _ => rfl
      | moved _ _ _ => exact fun hno => by cases hno
  | probe uid p os ih _ =>
    intro c
    cases c with
    | probe e c cs =>
      have hends := next_probe_ends_anyhow uid e c cs s
      generalize next s (.probe e c cs : Cursor (.probe uid p os)) = answer at hends ⊢
      intro hno
      cases hends with
      | stopped e => exact Or.inl rfl
      | fired _ => exact Or.inl rfl
      | searched _ h =>
        cases h with
        | @spent c₀ c₁ cs₀ _ _ hstep =>
          have hover := ih .clear c₀
          rw [hstep] at hover
          exact Or.inr (hover rfl)
        | found _ _ _ _ _ => cases hno
        | fault _ _ _ _ _ _ => exact Or.inl rfl

/-- **At the end no step finds anything.** -/
theorem next_of_over (s : Signal) : ∀ {c : Cursor p}, Over c → (next s c).1 = false := by
  induction p using BasicPlan.induct generalizing s with
  | null uid => exact fun _ => rfl
  | error uid e => exact fun _ => rfl
  | fixed uid leaf =>
    intro c hover
    cases c with
    | fixed c =>
      have ht : c.progress.state.isTerminal = true := hover
      have hends := leaf.next_ends s c
      rw [next_fixed]
      generalize leaf.next s c = answer at hends ⊢
      cases hends with
      | moved ht' _ _ =>
        rw [ht] at ht'
        cases ht'
      | _ => rfl
  | probe uid p os ih _ =>
    intro c hover
    cases c with
    | probe e c cs =>
      cases e with
      | some e => rw [next_probe_some]
      | none =>
        have hc : Over c := hover.resolve_left (by decide)
        -- the first child is at its end before every round of the search, so none finds anything
        have hkeep : ∀ c : Cursor p, Over c → Over (next .clear c).2 := fun c h =>
          over_of_next .clear c (ih .clear h)
        have hends : ProbeEnds s Over (fun _ => True) c cs none
            (next s (.probe none c cs : Cursor (.probe uid p os))) :=
          next_probe_ends hkeep (fun _ _ _ => trivial) hc trivial none s
        generalize next s (.probe none c cs : Cursor (.probe uid p os)) = answer at hends ⊢
        cases hends with
        | fired _ => rfl
        | searched _ h =>
          cases h with
          | spent _ _ _ => rfl
          | found hc₀ _ hstep _ _ =>
            have hno := ih .clear hc₀
            rw [hstep] at hno
            exact hno
          | fault _ _ _ _ _ _ => rfl

/-- Only rewinding leads away from the end. -/
theorem over_after {q : Request α} (hq : q.KeepsPlace) :
    ∀ {c : Cursor p}, Over c → Over (q.after c) := by
  induction p using BasicPlan.induct with
  | null uid =>
    intro c _
    cases c
    cases q <;> trivial
  | error uid e =>
    intro c _
    cases c
    cases q <;> trivial
  | fixed uid leaf =>
    intro c hover
    cases c with
    | fixed c =>
      obtain ⟨c', hafter, hmakes⟩ := after_fixed uid leaf q c
      rw [hafter]
      exact RowCursor.isTerminal_of_makes hmakes hq hover
  | probe uid p os ih _ =>
    intro c hover
    -- a step may search; every other request goes to the first child alone
    by_cases hnext : ∃ s, q = .next s
    · obtain ⟨s, rfl⟩ := hnext
      exact over_of_next s c (next_of_over s hover)
    · cases c with
      | probe e c cs =>
        obtain ⟨cs', hafter, -⟩ := after_probe uid (not_exists.1 hnext) e c cs
        rw [hafter]
        exact hover.imp_right ih

/-- **Nothing leads away from a stop.** -/
theorem stopped_after (q : Request α) : ∀ {c : Cursor p}, Stopped c → Stopped (q.after c) := by
  cases p with
  | null uid => exact fun h => h
  | error uid e => exact fun _ => trivial
  | custom n => cases n
  | fixed uid leaf =>
    intro c hstopped
    cases c with
    | fixed c =>
      obtain ⟨c', hafter, hmakes⟩ := after_fixed uid leaf q c
      rw [hafter]
      exact RowCursor.failed_of_makes hmakes hstopped
  | probe uid p os =>
    intro c hstopped
    cases c with
    | probe e c cs =>
      obtain ⟨e, rfl⟩ := Option.isSome_iff_exists.1 hstopped
      by_cases hnext : ∃ s, q = .next s
      · obtain ⟨s, rfl⟩ := hnext
        exact hstopped
      · obtain ⟨cs', hafter, -⟩ := after_probe uid (not_exists.1 hnext) (some e) c cs
        rw [hafter]
        exact hstopped

omit [Item α] in
theorem over_of_stopped {c : Cursor p} (h : Stopped c) : Over c := by
  cases p with
  | null uid =>
    cases c
    trivial
  | error uid e =>
    cases c
    trivial
  | custom n => cases n
  | fixed uid leaf =>
    cases c with
    | fixed c =>
      have hstate : c.progress.state = .failed := h
      show c.progress.state.isTerminal = true
      rw [hstate]
      rfl
  | probe uid p os =>
    cases c with
    | probe e c cs => exact Or.inl h

/-! ## Errors -/

/-- Does the root's state tell whether it has an error? -/
def Tells : {p : BasicPlan α} → Cursor p → Prop
  | .fixed _ _, .fixed c => c.Sound
  | .null _, _ | .error _ _, _ | .probe _ _ _, _ => True

omit [Item α] in
theorem tells_start (p : BasicPlan α) : Tells (start p) := by
  cases p with
  | fixed uid leaf => exact RowCursor.sound_start
  | custom n => cases n
  | _ => trivial

theorem tells_after (q : Request α) (c : Cursor p) (h : Tells c) : Tells (q.after c) := by
  cases p with
  | fixed uid leaf =>
    cases c with
    | fixed c =>
      obtain ⟨c', hafter, hmakes⟩ := after_fixed uid leaf q c
      rw [hafter]
      exact RowCursor.Sound.of_makes h hmakes
  | custom n => cases n
  | _ => trivial

/-- At any time of its life a root tells whether it has an error. -/
theorem tells_of_leads {c : Cursor p}
    (h : Operator.Leads (fun _ : Request α => True) (start p) c) : Tells c :=
  h.invariant (fun q _ c hc => tells_after q c hc) (tells_start p)

omit [Item α] in
theorem stopped_of_err {c : Cursor p} (h : Tells c) {e : QueryError} (he : err c = some e) :
    Stopped c := by
  cases p with
  | null uid => cases he
  | error uid e => trivial
  | custom n => cases n
  | fixed uid leaf =>
    cases c with
    | fixed c =>
      have herr : c.err = some e := he
      exact (h : c.Sound).failed_iff.2 (by rw [herr]; rfl)
  | probe uid p os =>
    cases c with
    | probe e' c cs =>
      have herr : e' = some e := he
      show e'.isSome = true
      rw [herr]
      rfl

theorem err_after (q : Request α) {c : Cursor p} (h : Tells c) {e : QueryError}
    (he : err c = some e) : err (q.after c) = some (p.errAfter e q) := by
  cases p with
  | null uid => cases he
  | error uid e' => exact he
  | custom n => cases n
  | fixed uid leaf =>
    cases c with
    | fixed c =>
      obtain ⟨c', hafter, hmakes⟩ := after_fixed uid leaf q c
      rw [hafter]
      exact RowCursor.Sound.err_of_makes h uid hmakes he
  | probe uid p os =>
    cases c with
    | probe e' c cs =>
      have herr : e' = some e := he
      rw [herr]
      by_cases hnext : ∃ s, q = .next s
      · obtain ⟨s, rfl⟩ := hnext
        rfl
      · obtain ⟨cs', hafter, -⟩ := after_probe uid (not_exists.1 hnext) (some e) c cs
        rw [hafter]
        rfl

theorem err_afterAll {later : List (Request α)} : ∀ {c : Cursor p} {e : QueryError}, Tells c →
    err c = some e → err (Request.afterAll later c) = some (later.foldl p.errAfter e) := by
  induction later with
  | nil => exact fun _ he => he
  | cons q later ih => exact fun h he => ih (tells_after q _ h) (err_after q h he)

omit [Item α] in
theorem close_of_err {c : Cursor p} {e : QueryError} (he : err c = some e) :
    (close c).1 = .error e := by
  cases p with
  | null uid => cases he
  | error uid e' =>
    cases c
    cases he
    rfl
  | custom n => cases n
  | fixed uid leaf =>
    cases c with
    | fixed c => exact RowCursor.close_of_err he
  | probe uid p os =>
    cases c with
    | probe e' c cs =>
      have herr : e' = some e := he
      rw [herr]
      rfl

omit [Item α] in
/-- Where every request keeps the error, all of them do. -/
theorem foldl_errAfter {later : List (Request α)} {e : QueryError}
    (h : ∀ q ∈ later, p.errAfter e q = e) : later.foldl p.errAfter e = e := by
  induction later with
  | nil => rfl
  | cons q later ih =>
    rw [List.foldl_cons, h q List.mem_cons_self]
    exact ih fun q' hq' => h q' (List.mem_cons_of_mem _ hq')

/-! ## The end of a tree -/

/-- **The end of a tree is the end.**  At any time of its life: once a step finds nothing, no
step finds anything as long as the cursors do not go back to the start, whatever is asked
in between; and once there is an error, no step ever finds anything. -/
theorem nothing_after_end (p : BasicPlan α) {c : Cursor p}
    (hc : Operator.Leads (fun _ : Request α => True) (start p) c) :
    (∀ s, (Operator.next s c).1 = false →
      ∀ c', Operator.Leads Request.KeepsPlace (Operator.next s c).2 c' →
        ∀ s', (Operator.next s' c').1 = false) ∧
    (∀ e, Operator.err c = some e →
      ∀ c', Operator.Leads (fun _ : Request α => True) c c' →
        ∀ s', (Operator.next s' c').1 = false) := by
  refine ⟨fun s hno c' hc' s' => ?_, fun e he c' hc' s' => ?_⟩
  · have hover : Over c' :=
      hc'.invariant (fun q hq _ h => over_after hq h) (over_of_next s c hno)
    exact next_of_over s' hover
  · have hstopped : Stopped c' :=
      hc'.invariant (fun q _ _ h => stopped_after q h) (stopped_of_err (tells_of_leads hc) he)
    exact next_of_over s' (over_of_stopped hstopped)

/-- An intersection of two rows with one of them. -/
def oneShared : BasicPlan Ref :=
  .probe ⟨2⟩ (.fixed ⟨0⟩ (.ofValues [⟨[1]⟩, ⟨[2]⟩])) [.fixed ⟨1⟩ (.ofValues [⟨[1]⟩])]

/-- The intersection after a step to its only result. -/
def onShared : Cursor oneShared := Request.after (.next .clear) (start oneShared)

/-- The intersection after a test that its first child did not survive. -/
def testedShared : Cursor oneShared :=
  Request.afterAll [.next .clear, .contains .expired ⟨[1]⟩, .next .clear] (start oneShared)

theorem nothing_after_end_oneShared :
    ((Operator.next .clear onShared).1 = false ∧
      (Operator.next .clear (Request.afterAll [.contains .clear ⟨[1]⟩, .close]
        (Operator.next .clear onShared).2)).1 = false) ∧
    (Operator.err testedShared = some .deadlineExceeded ∧
      (Operator.next .clear (Request.after .rewind testedShared)).1 = false) := by
  have hfirst : Operator.Leads (fun _ : Request Ref => True) (start oneShared) onShared :=
    .request _ .refl trivial
  have hsecond : Operator.Leads (fun _ : Request Ref => True) (start oneShared) testedShared :=
    Operator.Leads.refl.requests fun _ _ => trivial
  have hno : (Operator.next .clear onShared).1 = false := by decide
  have herr : Operator.err testedShared = some .deadlineExceeded := by decide
  refine ⟨⟨hno, ?_⟩, herr, ?_⟩
  · refine (nothing_after_end oneShared hfirst).1 .clear hno _
      (Operator.Leads.refl.requests fun q hq => ?_) .clear
    simp only [List.mem_cons, List.not_mem_nil, or_false] at hq
    rcases hq with rfl | rfl
    · trivial
    · trivial
  · exact (nothing_after_end oneShared hsecond).2 _ herr _ (.request _ .refl trivial) .clear

/-- **A tree with an error keeps having one.**  At any time of its life: once there is an
error, there is one after whatever is asked of the tree, `close` reports it, and it is the
same one as long as no membership test of a leaf is stopped by a context that shows
another. -/
theorem errors_after_error (p : BasicPlan α) {c : Cursor p}
    (hc : Operator.Leads (fun _ : Request α => True) (start p) c) {e : QueryError}
    (he : Operator.err c = some e) :
    (∀ later : List (Request α),
      Operator.err (Request.afterAll later c) = some (later.foldl p.errAfter e) ∧
      (Operator.close (Request.afterAll later c)).1 = .error (later.foldl p.errAfter e)) ∧
    (∀ c', Operator.Leads (fun q => p.errAfter e q = e) c c' →
      Operator.err c' = some e ∧ (Operator.close c').1 = .error e) := by
  have hall (later : List (Request α)) :
      err (Request.afterAll later c) = some (later.foldl p.errAfter e) :=
    err_afterAll (tells_of_leads hc) he
  refine ⟨fun later => ⟨hall later, close_of_err (hall later)⟩, fun c' hc' => ?_⟩
  obtain ⟨later, hlater, rfl⟩ := hc'.exists_requests
  have herr : err (Request.afterAll later c) = some e := by
    rw [hall later, foldl_errAfter hlater]
  exact ⟨herr, close_of_err herr⟩

/-- A leaf with one row. -/
def oneRow : BasicPlan Ref := .fixed ⟨0⟩ (.ofValues [⟨[1]⟩])

/-- The leaf after a cancelled step. -/
def cancelledRow : Cursor oneRow := Request.after (.next .cancelled) (start oneRow)

theorem errors_after_error_cancelledRow :
    Operator.Leads (fun _ : Request Ref => True) (start oneRow) cancelledRow ∧
    Operator.err cancelledRow = some .cancelled ∧
    Operator.err (Request.afterAll [.rewind, .next .expired, .contains .clear ⟨[1]⟩]
      cancelledRow) = some .cancelled := by
  have hleads : Operator.Leads (fun _ : Request Ref => True) (start oneRow) cancelledRow :=
    .request _ .refl trivial
  have herr : Operator.err cancelledRow = some .cancelled := by decide
  exact ⟨hleads, herr, ((errors_after_error oneRow hleads herr).1 _).1⟩

/-- **An error can change**: a membership test replaces the error of a cancelled leaf. -/
theorem tested_leaf_changes_error :
    Operator.Leads (fun _ : Request Ref => True) (start oneRow) cancelledRow ∧
    Operator.err cancelledRow = some .cancelled ∧
    Operator.err (Request.after (.contains .expired ⟨[1]⟩) cancelledRow) =
      some .deadlineExceeded ∧
    (Operator.close (Request.after (.contains .expired ⟨[1]⟩) cancelledRow)).1 =
      .error .deadlineExceeded := by
  refine ⟨.request _ .refl trivial, ?_, ?_, ?_⟩
  · decide
  · decide
  · rfl

end Cursor

end QueryPlan
