import QueryPlan.Proofs.Plan.Lineage

/-!
# Whom a cancellation reaches

A copy of a context shares the flag of what it is a copy of, but not the deadline.  So there are
two histories to tell of a context: its flag is that of the handle that it goes back to, whatever
happened on the way, and its deadline is what the last step on the way that gave one gave it.

* `DeadlineOf` — the deadline that a context has from the steps that it was made by.
* `Session.contexts_step` — all that a step can do to the contexts.
* `Session.deadlineOf_run` — a context has that deadline, and no other.
* `Session.run_of_step` — what no step takes away: a handle, a raised flag, a failed check.
* `Session.cancels_related` — **a cancellation reaches exactly the related handles**, and a check
  that has failed keeps failing.
-/

namespace QueryPlan

/-! ## Deadlines and what gave them -/

/-- The step gives a context a deadline. -/
def SessionStep.SetsDeadline : SessionStep → Prop
  | .withDeadline _ _ | .withTimeout _ _ => True
  | _ => False

/-- The deadline that the step gave to what it made, if it did not leave it as it was: a new
context has none, and a timeout that ends at no time that can be represented takes it away. -/
def Birth.deadline? (b : Birth) : Option (Option Instant) :=
  match b.step with
  | .newContext | .contextOf _ => some none
  | .withDeadline _ deadline => some (some deadline)
  | .withTimeout _ span => some (Instant.after? b.now span)
  | _ => none

/-- The deadline that a context has from the steps that it was made by. -/
inductive DeadlineOf (births : List Birth) : Handle → Option Instant → Prop where
  /-- The last step gave it. -/
  | given {b : Birth} {d : Option Instant} (hb : b ∈ births) (hd : b.deadline? = some d) :
      DeadlineOf births b.handle d
  /-- The last step copied a context that has it. -/
  | copied {b : Birth} {i : Nat} {d : Option Instant} (hb : b ∈ births)
      (hstep : b.step = .copyContext i) (hd : DeadlineOf births (.context i) d) :
      DeadlineOf births b.handle d

theorem DeadlineOf.mono {births births' : List Birth} (hsub : births ⊆ births')
    {h : Handle} {d : Option Instant} (hd : DeadlineOf births h d) : DeadlineOf births' h d := by
  induction hd with
  | given hb hd => exact .given (hsub hb) hd
  | copied hb hstep _ ih => exact .copied (hsub hb) hstep ih

theorem DeadlineOf.exists_birth {births : List Birth} {h : Handle} {d : Option Instant}
    (hd : DeadlineOf births h d) :
    ∃ b ∈ births, b.handle = h ∧ (b.deadline? = some d ∨
      ∃ i, b.step = .copyContext i ∧ DeadlineOf births (.context i) d) := by
  cases hd with
  | given hb hd => exact ⟨_, hb, rfl, .inl hd⟩
  | copied hb hstep hd => exact ⟨_, hb, rfl, .inr ⟨_, hstep, hd⟩⟩

/-- A context has one deadline. -/
theorem Lineage.deadline_eq {token : Handle → Option Token} {births : List Birth}
    (hl : Lineage token births) {h : Handle} {d d' : Option Instant}
    (hd : DeadlineOf births h d) (hd' : DeadlineOf births h d') : d = d' := by
  induction hd generalizing d' with
  | given hb hgiven =>
    obtain ⟨b', hb', hsame, hcase⟩ := hd'.exists_birth
    obtain rfl := hl.once _ hb' _ hb hsame
    rcases hcase with hgiven' | ⟨i, hstep, -⟩
    · exact Option.some.inj (hgiven.symm.trans hgiven')
    · simp [Birth.deadline?, hstep] at hgiven
  | copied hb hstep _ ih =>
    obtain ⟨b', hb', hsame, hcase⟩ := hd'.exists_birth
    obtain rfl := hl.once _ hb' _ hb hsame
    rcases hcase with hgiven | ⟨i, hstep', hcopied⟩
    · simp [Birth.deadline?, hstep] at hgiven
    · obtain rfl := SessionStep.copyContext.inj (hstep.symm.trans hstep')
      exact ih hcopied

namespace Session

variable {s : Session}

/-! ## Deadlines -/

/-- All that a step can do to the contexts of a session. -/
theorem contexts_step (s : Session) (x : SessionStep) :
    (s.step x).contexts = s.contexts ∨
      ∃ b c, s.birth? x = some b ∧ b.handle = .context s.contexts.length ∧
        (s.step x).contexts = s.contexts ++ [c] ∧
        (b.deadline? = some c.deadline ∨
          ∃ i, b.step = .copyContext i ∧ s.contexts[i]? = some c) := by
  cases x with
  | newContext => exact .inr ⟨_, .ofToken ⟨s.board.flags.length⟩, rfl, rfl, rfl, .inl rfl⟩
  | contextOf i =>
    rcases ht : s.tokens[i]? with _ | t
    · exact .inl (congrArg contexts (onToken_none ht _))
    · exact .inr ⟨_, .ofToken t, birth?_of_source rfl ht rfl, rfl,
        congrArg contexts (onToken_some ht _), .inl rfl⟩
  | copyContext i =>
    rcases hc : s.contexts[i]? with _ | c
    · exact .inl (congrArg contexts (onContext_none hc _))
    · exact .inr ⟨_, c, birth?_of_source rfl (token?_context hc) rfl, rfl,
        congrArg contexts (onContext_some hc _), .inr ⟨i, rfl, hc⟩⟩
  | withDeadline i deadline =>
    rcases hc : s.contexts[i]? with _ | c
    · exact .inl (congrArg contexts (onContext_none hc _))
    · exact .inr ⟨_, c.withDeadline deadline, birth?_of_source rfl (token?_context hc) rfl, rfl,
        congrArg contexts (onContext_some hc _), .inl rfl⟩
  | withTimeout i span =>
    rcases hc : s.contexts[i]? with _ | c
    · exact .inl (congrArg contexts (onContext_none hc _))
    · exact .inr ⟨_, c.withTimeout s.now span, birth?_of_source rfl (token?_context hc) rfl, rfl,
        congrArg contexts (onContext_some hc _), .inl rfl⟩
  | cancelContext i | tokenOf i =>
    exact .inl (onContext_of (P := fun s' => s'.contexts = s.contexts) rfl fun _ => rfl)
  | copyToken i | cancelToken i =>
    exact .inl (onToken_of (P := fun s' => s'.contexts = s.contexts) rfl fun _ => rfl)
  | newToken | wait span => exact .inl rfl

theorem getElem?_contexts_step {i : Nat} {c : Context} (hc : s.contexts[i]? = some c)
    (x : SessionStep) : (s.step x).contexts[i]? = some c := by
  rcases contexts_step s x with heq | ⟨_, _, _, _, heq, _⟩ <;> rw [heq]
  · exact hc
  · rw [List.getElem?_append_left (List.getElem?_eq_some_iff.1 hc).1, hc]

/-- A step that makes a context keeps to the deadlines that the others have. -/
theorem deadlineOf_step {bs : List Birth}
    (hbs : ∀ i c, s.contexts[i]? = some c → DeadlineOf bs (.context i) c.deadline)
    (x : SessionStep) (i : Nat) (c : Context) (hc : (s.step x).contexts[i]? = some c) :
    DeadlineOf (bs ++ (s.birth? x).toList) (.context i) c.deadline := by
  have hsub : bs ⊆ bs ++ (s.birth? x).toList := List.subset_append_left ..
  rcases contexts_step s x with heq | ⟨b, c', hbirth, hhandle, heq, hcase⟩ <;> rw [heq] at hc
  · exact (hbs i c hc).mono hsub
  · by_cases hi : i < s.contexts.length
    · rw [List.getElem?_append_left hi] at hc
      exact (hbs i c hc).mono hsub
    · have hlast : i = s.contexts.length := by
        have := (List.getElem?_eq_some_iff.1 hc).1
        simp only [List.length_append, List.length_singleton] at this
        omega
      subst hlast
      obtain rfl : c' = c := by simpa using hc
      have hb : b ∈ bs ++ (s.birth? x).toList := by simp [hbirth]
      rw [← hhandle]
      rcases hcase with hgiven | ⟨j, hstep, hj⟩
      · exact .given hb hgiven
      · exact .copied hb hstep ((hbs j c' hj).mono hsub)

/-- **A context has the deadline that it has from the steps that it was made by.** -/
theorem deadlineOf_run (start : Instant) (steps : List SessionStep) (i : Nat) (c : Context)
    (hc : ((new start).run steps).contexts[i]? = some c) :
    DeadlineOf ((new start).births steps) (.context i) c.deadline := by
  induction steps using List.reverseRecOn generalizing i c with
  | nil => simp [run, new] at hc
  | append_singleton steps x ih =>
    rw [run_append] at hc
    rw [births_concat]
    exact deadlineOf_step ih x i c hc

/-! ## What does not change back -/

theorem board_step_of_setsDeadline {x : SessionStep} (hx : x.SetsDeadline) :
    (s.step x).board = s.board := by
  cases x with
  | withDeadline i _ | withTimeout i _ =>
    exact onContext_of (P := fun s' => s'.board = s.board) rfl fun _ => rfl
  | _ => exact hx.elim

theorem isCancelled_step {t : Token} (ht : s.board.isCancelled t = true) (x : SessionStep) :
    (s.step x).board.isCancelled t = true := by
  cases stepEffect s x with
  | original _ _ _ _ board _ => rwa [board, Switchboard.isCancelled_concat_false]
  | copy _ _ _ _ _ _ _ board _ | none _ _ board _ => rwa [board]
  | cancel _ _ _ _ _ board _ => rw [board, Switchboard.isCancelled_cancel_of ht]

theorem now_step (s : Session) (x : SessionStep) : s.now ≤ (s.step x).now := by
  cases x with
  | newContext | newToken => exact Nat.le_refl _
  | wait span => exact Nat.le_add_right ..
  | contextOf i | copyToken i | cancelToken i =>
    exact onToken_of (P := fun s' => s.now ≤ s'.now) (Nat.le_refl _) fun _ => Nat.le_refl _
  | copyContext i | withDeadline i _ | withTimeout i _ | cancelContext i | tokenOf i =>
    exact onContext_of (P := fun s' => s.now ≤ s'.now) (Nat.le_refl _) fun _ => Nat.le_refl _

/-- What no step takes away, no steps take away. -/
theorem run_of_step {P : Session → Prop} (hstep : ∀ s x, P s → P (s.step x)) (hs : P s)
    (steps : List SessionStep) : P (s.run steps) := by
  induction steps generalizing s with
  | nil => exact hs
  | cons x steps ih => exact ih (hstep s x hs)

/-- A check fails: the context's flag is raised, or its deadline has passed. -/
def Stopped (s : Session) (i : Nat) : Prop :=
  ∃ c, s.contexts[i]? = some c ∧
    (s.board.isCancelled c.token = true ∨ ∃ d, c.deadline = some d ∧ d ≤ s.now)

theorem stopped_step {i : Nat} (x : SessionStep) (h : s.Stopped i) : (s.step x).Stopped i := by
  obtain ⟨c, hc, hcase⟩ := h
  refine ⟨c, getElem?_contexts_step hc x, ?_⟩
  rcases hcase with hcancelled | ⟨d, hd, hle⟩
  · exact .inl (isCancelled_step hcancelled x)
  · exact .inr ⟨d, hd, Nat.le_trans hle (now_step s x)⟩

theorem isExpired_iff (c : Context) (now : Instant) :
    c.isExpired now = true ↔ ∃ d, c.deadline = some d ∧ d ≤ now := by
  rcases hd : c.deadline with _ | d <;> simp [Context.isExpired, hd]

/-- What a look at a context comes to, as an outcome. -/
theorem check_signal {i : Nat} {c : Context} (hc : s.contexts[i]? = some c) :
    (s.signal i).check =
      if s.board.isCancelled c.token then .error .cancelled
      else if c.isExpired s.now then .error .deadlineExceeded
      else .ok () := by
  simp only [signal, hc, Context.signal]
  split
  · rfl
  · split <;> rfl

theorem check_eq_ok_iff (s : Session) (i : Nat) : (s.signal i).check = .ok () ↔ ¬ s.Stopped i := by
  rcases hc : s.contexts[i]? with _ | c
  · simp [Stopped, hc, signal, Signal.check, Signal.error?]
  · rw [check_signal hc]
    simp only [Stopped, hc, Option.some.injEq, exists_eq_left', ← isExpired_iff]
    split
    · simp [*]
    · split <;> simp [*]

/-! ## Whom a cancellation reaches -/

/-- **A cancellation reaches exactly the handles that share its flag.**  At every moment of a
session there are the handles that were made, and one of them is cancelled if and only if a
handle was cancelled through that goes back to the same one, and it stays so.  Giving a context a
deadline changes no other handle, neither its flag nor its deadline; a context's deadline is the
one that the last step gave that gave one.  And a check reports the cancellation first, then the
passed deadline, and does not go back to success. -/
theorem cancels_related (start : Instant) (steps : List SessionStep) :
    let s := (new start).run steps
    let births := (new start).births steps
    (∀ h, (∃ t, s.token? h = some t) ↔ ∃ b ∈ births, b.handle = h) ∧
    (∀ h t, s.token? h = some t →
      (s.board.isCancelled t = true ↔ ∃ h' ∈ (new start).cancels steps, Related births h h') ∧
      ∀ more, (s.run more).token? h = some t ∧
        (s.board.isCancelled t = true → (s.run more).board.isCancelled t = true)) ∧
    (∀ x : SessionStep, x.SetsDeadline →
      (∀ h t, s.token? h = some t → (s.step x).token? h = some t ∧
        (s.step x).board.isCancelled t = s.board.isCancelled t) ∧
      ∀ (i : Nat) (c : Context), s.contexts[i]? = some c → (s.step x).contexts[i]? = some c) ∧
    ∀ (i : Nat) (c : Context), s.contexts[i]? = some c →
      (∀ d, DeadlineOf births (.context i) d ↔ c.deadline = d) ∧
      (s.signal i).check =
        (if s.board.isCancelled c.token then .error .cancelled
        else if c.isExpired s.now then .error .deadlineExceeded
        else .ok ()) ∧
      (c.isExpired s.now = true ↔ ∃ d, DeadlineOf births (.context i) (some d) ∧ d ≤ s.now) ∧
      ∀ more, (s.signal i).check ≠ .ok () → ((s.run more).signal i).check ≠ .ok () := by
  intro s births
  obtain ⟨hl, hr⟩ := lineage_run start steps
  refine ⟨hl.exists_token_iff, fun h t ht => ⟨?_, fun more => ⟨?_, fun hc => ?_⟩⟩,
    fun x hx => ⟨fun h t ht => ?_, fun i c hc => ?_⟩, fun i c hc => ?_⟩
  · rw [hr.raised]
    refine exists_congr fun h' => and_congr_right fun hh' => ?_
    obtain ⟨t', ht'⟩ := hr.there h' hh'
    rw [hl.related_iff ht ht', ht', Option.some.injEq, eq_comm]
  · exact run_of_step (P := fun s => s.token? h = some t) (fun s x hs => token?_step hs x) ht more
  · exact run_of_step (P := fun s => s.board.isCancelled t = true)
      (fun s x hs => isCancelled_step hs x) hc more
  · exact ⟨token?_step ht x, by rw [board_step_of_setsDeadline hx]⟩
  · exact getElem?_contexts_step hc x
  · have hdeadline : ∀ d, DeadlineOf births (.context i) d ↔ c.deadline = d := by
      have hown := deadlineOf_run start steps i c hc
      exact fun d => ⟨fun hd => hl.deadline_eq hown hd, fun hd => hd ▸ hown⟩
    refine ⟨hdeadline, check_signal hc, ?_, fun more hfails => ?_⟩
    · simp only [isExpired_iff, hdeadline]
    · rw [ne_eq, check_eq_ok_iff, not_not] at hfails ⊢
      exact run_of_step (P := fun s => s.Stopped i) (fun s x hs => stopped_step x hs) hfails more

/-- A token whose copy's copy is cancelled through, a context that is derived from it later, and
another one's. -/
def laterCopy : List SessionStep :=
  [.newToken, .contextOf 0, .withTimeout 0 5, .copyContext 1, .newContext, .tokenOf 2,
    .copyToken 1, .cancelToken 2, .withDeadline 2 100, .wait 7]

theorem cancels_related_laterCopy :
    let births := (new 10).births laterCopy
    (∃ h ∈ (new 10).cancels laterCopy, Related births (.context 4) h) ∧
      (¬ ∃ h ∈ (new 10).cancels laterCopy, Related births (.context 3) h) ∧
      DeadlineOf births (.context 2) (some 15) ∧ DeadlineOf births (.context 4) (some 100) := by
  obtain ⟨-, hreach, -, hdeadline⟩ := cancels_related 10 laterCopy
  refine ⟨?_, fun hrelated => ?_, ?_, ?_⟩
  · exact ((hreach (.context 4) ⟨0⟩ rfl).1).1 rfl
  · have hcancelled := ((hreach (.context 3) ⟨1⟩ rfl).1).2 hrelated
    exact absurd hcancelled (by decide)
  · exact ((hdeadline 2 ⟨⟨0⟩, some 15⟩ rfl).1 _).2 rfl
  · exact ((hdeadline 4 ⟨⟨0⟩, some 100⟩ rfl).1 _).2 rfl

end Session

end QueryPlan
