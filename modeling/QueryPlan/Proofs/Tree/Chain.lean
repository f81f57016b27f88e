import QueryPlan.Proofs.Tree.Stopping

/-!
# The chain of first children

An intersection that nothing stopped shows the state of its first child, which may show that
of its own first child in turn, and so on down to a leaf, the tip of the chain.  Errors do not
come up that way: an intersection takes over the error of a child when a step meets it, and
otherwise has none.  So state and error can disagree (`Cursor.failed_without_err`).

* `Cursor.Orderly` — what holds along the chain at any time: where a node has no error, no
  intersection below it has one, and the tip is sound.
* `Cursor.state_eq_failed_iff` — a root has failed exactly if it has an error or its tip has.
* `Cursor.Frank` — a root that has the error of its tip; every step leaves it so.
* `Cursor.failed_iff_err` — where state and error agree.
-/

namespace QueryPlan

variable {α : Type}

/-- Is the root of the plan anything but an intersection? -/
def Plan.IsLeaf : BasicPlan α → Prop
  | .probe _ _ _ => False
  | _ => True

namespace Cursor

/-! ## Errors along the chain -/

/-- The error of the leaf at the end of the chain of first children. -/
def tipErr : {p : BasicPlan α} → Cursor p → Option QueryError
  | .null _, _ => none
  | .error _ e, _ => some e
  | .fixed _ _, .fixed c => c.err
  | .probe _ _ _, .probe _ c _ => tipErr c

/-- The error that stopped the root, if the root is an intersection. -/
def ownErr : {p : BasicPlan α} → Cursor p → Option QueryError
  | .probe _ _ _, .probe e _ _ => e
  | _, _ => none

/-- What holds along the chain of first children at any time: an intersection without an error
stands above no intersection with one, and the leaf at the end is sound. -/
def Orderly : {p : BasicPlan α} → Cursor p → Prop
  | .fixed _ _, .fixed c => c.Sound
  | .probe _ _ _, .probe e c _ => Orderly c ∧ (e = none → ownErr c = none)
  | .null _, _ | .error _ _, _ => True

variable {p : BasicPlan α}

/-- A leaf is its own tip. -/
theorem tipErr_of_isLeaf (hp : p.IsLeaf) (c : Cursor p) : tipErr c = err c := by
  cases p with
  | probe uid p os => cases hp
  | custom n => cases n
  | _ =>
    cases c
    rfl

theorem ownErr_of_isLeaf (hp : p.IsLeaf) (c : Cursor p) : ownErr c = none := by
  cases p with
  | probe uid p os => cases hp
  | custom n => cases n
  | _ => rfl

theorem ownErr_of_err {c : Cursor p} (h : err c = none) : ownErr c = none := by
  cases p with
  | probe uid p os =>
    cases c
    exact h
  | custom n => cases n
  | _ => rfl

/-- An error of the root that the root does not hold itself is that of its tip. -/
theorem err_of_ownErr {c : Cursor p} (h : ownErr c = none) (herr : (err c).isSome = true) :
    (tipErr c).isSome = true := by
  cases p with
  | probe uid p os =>
    cases c with
    | probe e c cs =>
      have he : e = none := h
      subst he
      cases herr
  | custom n => cases n
  | _ =>
    cases c
    exact herr

theorem orderly_start (p : BasicPlan α) : Orderly (start p) := by
  induction p using BasicPlan.induct with
  | null uid => trivial
  | error uid e => trivial
  | fixed uid leaf => exact RowCursor.sound_start
  | probe uid p os ih _ =>
    refine ⟨ih, fun _ => ?_⟩
    cases p with
    | custom n => cases n
    | _ => rfl

/-! ## What keeps the chain orderly -/

section Requests

variable [Item α]

/-- A step that finds a result finds no error on its way. -/
theorem ownErr_of_next {s : Signal} {c c' : Cursor p} (h : next s c = (true, c')) :
    ownErr c' = none := by
  cases p with
  | probe uid p os =>
    cases c with
    | probe e c cs =>
      have hends := next_probe_ends_anyhow uid e c cs s
      rw [h] at hends
      cases hends with
      | searched _ hsearch =>
        cases hsearch with
        | found _ _ _ _ _ => rfl
  | custom n => cases n
  | _ => rfl

/-- Only a step changes the error that an intersection holds. -/
theorem ownErr_after {q : Request α} (hq : ∀ s, q ≠ .next s) (c : Cursor p) :
    ownErr (q.after c) = ownErr c := by
  cases p with
  | probe uid p os =>
    cases c with
    | probe e c cs =>
      obtain ⟨cs', hafter, -⟩ := after_probe uid hq e c cs
      rw [hafter]
      rfl
  | custom n => cases n
  | _ => rfl

/-- **Every request keeps the chain orderly.** -/
theorem orderly_after (q : Request α) : ∀ {c : Cursor p}, Orderly c → Orderly (q.after c) := by
  induction p using BasicPlan.induct generalizing q with
  | null uid =>
    intro c _
    cases c
    cases q <;> trivial
  | error uid e =>
    intro c _
    cases c
    cases q <;> trivial
  | fixed uid leaf =>
    intro c h
    cases c with
    | fixed c =>
      obtain ⟨c', hafter, hmakes⟩ := after_fixed uid leaf q c
      rw [hafter]
      exact RowCursor.Sound.of_makes h hmakes
  | probe uid p os ih _ =>
    intro c h
    cases c with
    | probe e c cs =>
      obtain ⟨hc, hown⟩ := h
      by_cases hnext : ∃ s, q = .next s
      · obtain ⟨s, rfl⟩ := hnext
        have hstep (c : Cursor p) (h : Orderly c) : Orderly (next .clear c).2 :=
          ih (.next .clear) h
        have hends : ProbeEnds s Orderly (fun _ => True) c cs e
            (next s (.probe e c cs : Cursor (.probe uid p os))) :=
          next_probe_ends hstep (fun _ _ _ => trivial) hc trivial e s
        show Orderly (next s (.probe e c cs : Cursor (.probe uid p os))).2
        generalize next s (.probe e c cs : Cursor (.probe uid p os)) = answer at hends ⊢
        cases hends with
        | stopped e => exact ⟨hc, hown⟩
        | fired _ => exact ⟨hc, nofun⟩
        | @searched _ _ c₁ cs₁ _ hsearch =>
          cases hsearch with
          | @spent c₀ _ _ hc₀ _ hno =>
            have hc₁ := hstep c₀ hc₀
            rw [hno] at hc₁
            -- the error of the first child would have been taken over
            refine ⟨hc₁, fun hnone => ownErr_of_err ?_⟩
            rw [Option.orElse_eq_or, Option.or_eq_none_iff] at hnone
            exact hnone.1
          | @found c₀ _ _ _ _ hc₀ _ hyes _ _ =>
            have hc₁ := hstep c₀ hc₀
            rw [hyes] at hc₁
            exact ⟨hc₁, fun _ => ownErr_of_next hyes⟩
          | @fault c₀ _ _ _ _ _ hc₀ _ hyes _ _ _ =>
            have hc₁ := hstep c₀ hc₀
            rw [hyes] at hc₁
            exact ⟨hc₁, nofun⟩
      · obtain ⟨cs', hafter, -⟩ := after_probe uid (not_exists.1 hnext) e c cs
        rw [hafter]
        exact ⟨ih q hc, fun he => (ownErr_after (not_exists.1 hnext) c).trans (hown he)⟩

/-- A step of an intersection finds its first child orderly before every round. -/
theorem next_probe_ends_orderly (uid : Uid) {os : List (BasicPlan α)} {c : Cursor p}
    (hc : Orderly c) (cs : Cursors os) (e : Option QueryError) (s : Signal) :
    ProbeEnds s Orderly (fun _ => True) c cs e
      (next s (.probe e c cs : Cursor (.probe uid p os))) :=
  next_probe_ends (fun _ h => orderly_after (.next .clear) h) (fun _ _ _ => trivial) hc trivial e s

/-- At any time of its life a tree is orderly along its chain of first children. -/
theorem orderly_of_leads {c : Cursor p}
    (h : Operator.Leads (fun _ : Request α => True) (start p) c) : Orderly c :=
  h.invariant (fun q _ _ hc => orderly_after q hc) (orderly_start p)

end Requests

/-! ## What the state shows -/

/-- **A root has failed exactly if it has an error or its tip has.** -/
theorem state_eq_failed_iff : ∀ {c : Cursor p}, Orderly c →
    (state c = .failed ↔ (err c).isSome = true ∨ (tipErr c).isSome = true) := by
  induction p using BasicPlan.induct with
  | null uid =>
    intro c _
    cases c
    exact ⟨nofun, fun h => by cases h <;> contradiction⟩
  | error uid e =>
    intro c _
    cases c
    exact ⟨fun _ => Or.inl rfl, fun _ => rfl⟩
  | fixed uid leaf =>
    intro c h
    cases c with
    | fixed c =>
      have hsound : c.Sound := h
      exact hsound.failed_iff.trans (or_self_iff.symm)
  | probe uid p os ih _ =>
    intro c h
    cases c with
    | probe e c cs =>
      obtain ⟨hc, hown⟩ := h
      cases e with
      | some e => exact ⟨fun _ => Or.inl rfl, fun _ => rfl⟩
      | none =>
        have htip : (err c).isSome = true → (tipErr c).isSome = true := err_of_ownErr (hown rfl)
        calc state c = .failed ↔ (err c).isSome = true ∨ (tipErr c).isSome = true := ih hc
          _ ↔ (tipErr c).isSome = true := or_iff_right_of_imp htip
          _ ↔ (none : Option QueryError).isSome = true ∨ (tipErr c).isSome = true := by simp

/-! ## Roots that have the error of their tip -/

/-- Has the root an error if the leaf has on which its state hangs? -/
def Frank (c : Cursor p) : Prop := (tipErr c).isSome = true → (err c).isSome = true

theorem frank_of_isLeaf (hp : p.IsLeaf) (c : Cursor p) : Frank c := by
  rw [Frank, tipErr_of_isLeaf hp]
  exact id

/-- State and error of a frank root agree. -/
theorem Frank.failed_iff {c : Cursor p} (h : Frank c) (hc : Orderly c) :
    state c = .failed ↔ (err c).isSome = true :=
  (state_eq_failed_iff hc).trans (or_iff_left_of_imp h)

end Cursor

/-- Is the request one whose context has not fired, or else a step? -/
def Request.FiresAtSteps : Request α → Prop
  | .nextPath s | .contains s _ => s = .clear
  | .next _ | .rewind | .close | .read => True

theorem Request.Clear.firesAtSteps {q : Request α} (h : q.Clear) : q.FiresAtSteps := by
  cases q with
  | nextPath s => exact h
  | contains s x => exact h
  | _ => trivial

/-- Such a request leaves the error of a leaf alone, if it is not a step. -/
theorem RowSet.Makes.err_eq {leaf : RowSet α} {q : Request α} {c c' : RowCursor}
    (h : leaf.Makes c q c') (hq : q.FiresAtSteps) (hnext : ∀ s, q ≠ .next s) :
    c'.err = c.err := by
  cases h with
  | stopped _ _ => exact absurd rfl (hnext _)
  | spent _ _ => exact absurd rfl (hnext _)
  | onto _ _ => exact absurd rfl (hnext _)
  | stoppedPath _ he =>
    obtain rfl : _ = Signal.clear := hq
    cases he
  | stoppedTest he =>
    obtain rfl : _ = Signal.clear := hq
    cases he
  | _ => rfl

namespace Cursor

variable {p : BasicPlan α} [Item α]

/-- Where a step finds a result, the tip has no error. -/
theorem tipErr_of_next {s : Signal} : ∀ {c c' : Cursor p}, Orderly c →
    next s c = (true, c') → tipErr c' = none := by
  induction p using BasicPlan.induct generalizing s with
  | null uid =>
    intro c c' _ h
    cases h
  | error uid e =>
    intro c c' _ h
    cases h
  | fixed uid leaf =>
    intro c c' hc h
    cases c with
    | fixed c =>
      have hsound : c.Sound := hc
      have hends := leaf.next_ends s c
      rw [next_fixed] at h
      generalize leaf.next s c = answer at hends h
      cases hends with
      | moved ht _ _ =>
        cases h
        exact hsound.err_eq_none ht
      | _ => cases h
  | probe uid p os ih _ =>
    intro c c' hc h
    cases c with
    | probe e c cs =>
      have hends := next_probe_ends_orderly uid hc.1 cs e s
      rw [h] at hends
      cases hends with
      | searched _ hsearch =>
        cases hsearch with
        | found hc₀ _ hyes _ _ => exact ih hc₀ hyes

/-- **A step leaves the root with the error of its tip**, wherever the cursors stand. -/
theorem frank_next (s : Signal) : ∀ {c : Cursor p}, Orderly c → Frank (next s c).2 := by
  induction p using BasicPlan.induct generalizing s with
  | null uid => exact fun _ => frank_of_isLeaf (p := .null uid) trivial _
  | error uid e => exact fun _ => frank_of_isLeaf (p := .error uid e) trivial _
  | fixed uid leaf => exact fun _ => frank_of_isLeaf (p := .fixed uid leaf) trivial _
  | probe uid p os ih _ =>
    intro c hc
    cases c with
    | probe e c cs =>
      have hends := next_probe_ends_orderly uid hc.1 cs e s
      generalize next s (.probe e c cs : Cursor (.probe uid p os)) = answer at hends ⊢
      cases hends with
      | stopped e => exact fun _ => rfl
      | fired _ => exact fun _ => rfl
      | @searched _ _ c₁ cs₁ _ hsearch =>
        cases hsearch with
        | spent hc₀ _ hno =>
          have hfrank : Frank c₁ := by
            have h := ih .clear hc₀
            rwa [hno] at h
          intro htip
          obtain ⟨e, he⟩ := Option.isSome_iff_exists.1 (hfrank htip)
          show ((err c₁).orElse fun _ => firstErr cs₁).isSome = true
          rw [he]
          rfl
        | found hc₀ _ hyes _ _ =>
          have hnone : tipErr c₁ = none := tipErr_of_next hc₀ hyes
          intro htip
          rw [show tipErr (.probe none c₁ cs₁ : Cursor (.probe uid p os)) = none from hnone] at htip
          cases htip
        | fault _ _ _ _ _ _ => exact fun _ => rfl

/-- Requests under contexts that have not fired leave the tip's error alone, steps apart. -/
theorem tipErr_after {q : Request α} (hq : q.FiresAtSteps) (hnext : ∀ s, q ≠ .next s) :
    ∀ c : Cursor p, tipErr (q.after c) = tipErr c := by
  induction p using BasicPlan.induct with
  | null uid =>
    intro c
    cases c
    cases q <;> rfl
  | error uid e =>
    intro c
    cases c
    cases q <;> rfl
  | fixed uid leaf =>
    intro c
    cases c with
    | fixed c =>
      obtain ⟨c', hafter, hmakes⟩ := after_fixed uid leaf q c
      rw [hafter]
      exact hmakes.err_eq hq hnext
  | probe uid p os ih _ =>
    intro c
    cases c with
    | probe e c cs =>
      obtain ⟨cs', hafter, -⟩ := after_probe uid hnext e c cs
      rw [hafter]
      exact ih c

theorem frank_after {q : Request α} (hq : q.FiresAtSteps) {c : Cursor p} (hc : Orderly c)
    (h : Frank c) : Frank (q.after c) := by
  by_cases hnext : ∃ s, q = .next s
  · obtain ⟨s, rfl⟩ := hnext
    exact frank_next s hc
  · cases p with
    | probe uid p os =>
      cases c with
      | probe e c cs =>
        have htip := tipErr_after hq (not_exists.1 hnext) (.probe e c cs : Cursor (.probe uid p os))
        obtain ⟨cs', hafter, -⟩ := after_probe uid (not_exists.1 hnext) e c cs
        rw [Frank, htip, hafter]
        exact h
    | null uid => exact frank_of_isLeaf (p := .null uid) trivial _
    | error uid e => exact frank_of_isLeaf (p := .error uid e) trivial _
    | fixed uid leaf => exact frank_of_isLeaf (p := .fixed uid leaf) trivial _
    | custom n => cases n

/-- Along a history in which contexts fire at steps only, a frank root stays frank. -/
theorem frank_of_leads {c c' : Cursor p} (hc : Orderly c) (h : Frank c)
    (hlater : Operator.Leads Request.FiresAtSteps c c') : Orderly c' ∧ Frank c' :=
  hlater.invariant (P := fun c => Orderly c ∧ Frank c)
    (fun q hq _ h => ⟨orderly_after q h.1, frank_after hq h.1 h.2⟩) ⟨hc, h⟩

/-! ## State and error -/

/-- **Where state and error agree.**  At any time of its life, a root has failed exactly if it
has an error or the leaf at the end of its chain of first children has.  So state and error of
a leaf agree, and so do those of an intersection after every step, whatever went before, and
from then on for as long as no path step and no test is made under a fired context; from the
start, if that chain does not end in an error leaf. -/
theorem failed_iff_err (p : BasicPlan α) {c : Cursor p}
    (hc : Operator.Leads (fun _ : Request α => True) (start p) c) :
    (Operator.state c = .failed ↔
      (Operator.err c).isSome = true ∨ (tipErr c).isSome = true) ∧
    (p.IsLeaf → (Operator.state c = .failed ↔ (Operator.err c).isSome = true)) ∧
    (∀ s c', Operator.Leads Request.FiresAtSteps (Operator.next s c).2 c' →
      (Operator.state c' = .failed ↔ (Operator.err c').isSome = true)) ∧
    (tipErr (start p) = none → Operator.Leads Request.FiresAtSteps (start p) c →
      (Operator.state c = .failed ↔ (Operator.err c).isSome = true)) := by
  have horderly := orderly_of_leads hc
  refine ⟨state_eq_failed_iff horderly, fun hp => (frank_of_isLeaf hp c).failed_iff horderly,
    fun s c' hlater => ?_, fun htip hsteps => ?_⟩
  · obtain ⟨horderly', hfrank⟩ :=
      frank_of_leads (orderly_after (.next s) horderly) (frank_next s horderly) hlater
    exact hfrank.failed_iff horderly'
  · have hstart : Frank (start p) := by
      rw [Frank, htip]
      exact nofun
    exact (frank_of_leads (orderly_start p) hstart hsteps).2.failed_iff horderly

/-- An intersection of a leaf with one row and no other child. -/
def aboveOneRow : BasicPlan Ref := .probe ⟨1⟩ oneRow []

/-- The intersection after a path step that was cancelled. -/
def cancelledBelow : Cursor aboveOneRow :=
  Request.afterAll [.next .clear, .nextPath .cancelled] (start aboveOneRow)

/-- A leaf that was cancelled tells so; an intersection above it tells so after a step, and on its
first result there is nothing to tell. -/
theorem failed_iff_err_cancelledBelow :
    (Operator.Leads (fun _ : Request Ref => True) (start oneRow) cancelledRow ∧
      oneRow.IsLeaf ∧
      (Operator.state cancelledRow = .failed ↔ (Operator.err cancelledRow).isSome = true)) ∧
    (Operator.Leads (fun _ : Request Ref => True) (start aboveOneRow) cancelledBelow ∧
      (Operator.state (Operator.next .clear cancelledBelow).2 = .failed ↔
        (Operator.err (Operator.next .clear cancelledBelow).2).isSome = true)) ∧
    tipErr (start aboveOneRow) = none ∧
    (Operator.state (Request.after (.next .clear) (start aboveOneRow)) = .failed ↔
      (Operator.err (Request.after (.next .clear) (start aboveOneRow))).isSome = true) := by
  have hleaf : Operator.Leads (fun _ : Request Ref => True) (start oneRow) cancelledRow :=
    .request _ .refl trivial
  have hbelow : Operator.Leads (fun _ : Request Ref => True) (start aboveOneRow) cancelledBelow :=
    Operator.Leads.refl.requests fun _ _ => trivial
  have hfirst {allowed : Request Ref → Prop} (h : allowed (.next .clear)) :
      Operator.Leads allowed (start aboveOneRow)
        (Request.after (.next .clear) (start aboveOneRow)) := .request _ .refl h
  obtain ⟨-, hagree, -⟩ := failed_iff_err oneRow hleaf
  obtain ⟨-, -, hstep, -⟩ := failed_iff_err aboveOneRow hbelow
  obtain ⟨-, -, -, hstart⟩ := failed_iff_err aboveOneRow (hfirst trivial)
  exact ⟨⟨hleaf, trivial, hagree trivial⟩, ⟨hbelow, hstep .clear _ .refl⟩, rfl,
    hstart rfl (hfirst trivial)⟩

/-- **State and error can disagree**: the path step stopped the leaf, whose state the intersection
shows, and left the intersection without an error. -/
theorem failed_without_err :
    Operator.Leads (fun _ : Request Ref => True) (start aboveOneRow) cancelledBelow ∧
    Operator.state cancelledBelow = .failed ∧ Operator.err cancelledBelow = none := by
  refine ⟨Operator.Leads.refl.requests fun _ _ => trivial, ?_, ?_⟩
  · decide
  · decide

end Cursor

end QueryPlan
