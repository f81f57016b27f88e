import Mathlib.Data.List.Induction
import QueryPlan.Plan.Session

/-!
# What contexts and tokens were made from

Contexts and tokens are made from one another, and what is made shares the flag of what it was
made from.  So a handle has the flag of the one that it goes back to, that was made from no
other: after any steps, two handles have one flag exactly if they go back to the same one.

* `Session.births`, `Session.cancels` — what a list of steps has made, and cancelled through.
* `DescendsFrom`, `Related` — which handles go back to the same one.
* `Session.stepEffect` — all that a step can do to the tokens.
* `Lineage`, `Raised` — how tokens go with births, and raised flags with cancellations.
* `Session.lineage_run` — all steps keep to this.
-/

namespace QueryPlan

/-! ## Handles and what they were made from -/

/-- A context or a token of a session, by its number. -/
inductive Handle where
  /-- A context. -/
  | context (i : Nat)
  /-- A token that is held apart from a context. -/
  | token (i : Nat)
  deriving DecidableEq, Repr

namespace SessionStep

/-- The handle that a step makes another one from. -/
def source? : SessionStep → Option Handle
  | .contextOf i | .copyToken i => some (.token i)
  | .copyContext i | .withDeadline i _ | .withTimeout i _ | .tokenOf i => some (.context i)
  | .newContext | .newToken | .cancelContext _ | .cancelToken _ | .wait _ => none

/-- The handle that a step cancels through. -/
def target? : SessionStep → Option Handle
  | .cancelContext i => some (.context i)
  | .cancelToken i => some (.token i)
  | _ => none

end SessionStep

/-- A handle that was made, and how. -/
structure Birth where
  /-- What was made. -/
  handle : Handle
  /-- The step that made it. -/
  step : SessionStep
  /-- When it was made. -/
  now : Instant

/-- The handle goes back to one that was made from no other. -/
inductive DescendsFrom (births : List Birth) (o : Handle) : Handle → Prop where
  /-- The handle that was made from no other. -/
  | original {b : Birth} (hb : b ∈ births) (hnone : b.step.source? = none) (ho : b.handle = o) :
      DescendsFrom births o o
  /-- A handle that was made from one that goes back to it. -/
  | made {b : Birth} {h : Handle} (hb : b ∈ births) (hsome : b.step.source? = some h)
      (hh : DescendsFrom births o h) : DescendsFrom births o b.handle

/-- The handles go back to the same one. -/
def Related (births : List Birth) (h h' : Handle) : Prop :=
  ∃ o, DescendsFrom births o h ∧ DescendsFrom births o h'

theorem DescendsFrom.mono {births births' : List Birth} (hsub : births ⊆ births')
    {o h : Handle} (hh : DescendsFrom births o h) : DescendsFrom births' o h := by
  induction hh with
  | original hb hnone ho => exact .original (hsub hb) hnone ho
  | made hb hsome _ ih => exact .made (hsub hb) hsome ih

/-- What goes back to a handle was made. -/
theorem DescendsFrom.exists_birth {births : List Birth} {o h : Handle}
    (hh : DescendsFrom births o h) : ∃ b ∈ births, b.handle = h := by
  cases hh with
  | original hb _ ho => exact ⟨_, hb, ho⟩
  | made hb _ _ => exact ⟨_, hb, rfl⟩

/-- What handles go back to was made from no other. -/
theorem DescendsFrom.exists_original {births : List Birth} {o h : Handle}
    (hh : DescendsFrom births o h) :
    ∃ b ∈ births, b.step.source? = none ∧ b.handle = o := by
  induction hh with
  | original hb hnone ho => exact ⟨_, hb, hnone, ho⟩
  | made _ _ _ ih => exact ih

namespace Session

/-- The token behind a handle, if there is the handle. -/
def token? (s : Session) : Handle → Option Token
  | .context i => s.contexts[i]?.map Context.token
  | .token i => s.tokens[i]?

/-- There is the handle. -/
def has (s : Session) (h : Handle) : Bool := (s.token? h).isSome

/-- The handle that a step makes, if it finds what it makes it from. -/
def newHandle? (s : Session) : SessionStep → Option Handle
  | .newContext | .contextOf _ | .copyContext _ | .withDeadline _ _ | .withTimeout _ _ =>
    some (.context s.contexts.length)
  | .newToken | .tokenOf _ | .copyToken _ => some (.token s.tokens.length)
  | .cancelContext _ | .cancelToken _ | .wait _ => none

/-- What a step makes. -/
def birth? (s : Session) (x : SessionStep) : Option Birth :=
  if x.source?.all s.has then (s.newHandle? x).map fun h => ⟨h, x, s.now⟩ else none

/-- What a step cancels through. -/
def cancel? (s : Session) (x : SessionStep) : Option Handle := x.target?.filter s.has

/-- What steps make, in order. -/
def births (s : Session) : List SessionStep → List Birth
  | [] => []
  | x :: xs => (s.birth? x).toList ++ births (s.step x) xs

/-- What steps cancel through, in order. -/
def cancels (s : Session) : List SessionStep → List Handle
  | [] => []
  | x :: xs => (s.cancel? x).toList ++ cancels (s.step x) xs

theorem run_append (s : Session) (xs ys : List SessionStep) :
    s.run (xs ++ ys) = (s.run xs).run ys :=
  List.foldl_append

theorem births_concat (s : Session) (xs : List SessionStep) (x : SessionStep) :
    s.births (xs ++ [x]) = s.births xs ++ ((s.run xs).birth? x).toList := by
  induction xs generalizing s with
  | nil => simp [births, run]
  | cons y xs ih => simp [births, ih, run]

theorem cancels_concat (s : Session) (xs : List SessionStep) (x : SessionStep) :
    s.cancels (xs ++ [x]) = s.cancels xs ++ ((s.run xs).cancel? x).toList := by
  induction xs generalizing s with
  | nil => simp [cancels, run]
  | cons y xs ih => simp [cancels, ih, run]

/-! ## One step -/

variable {s : Session}

/-- The step has made one handle more, with this token. -/
structure Adds (token token' : Handle → Option Token) (h : Handle) (t : Token) : Prop where
  /-- The handle was not there. -/
  absent : token h = none
  /-- It is there now, and the others are as before. -/
  eq_ite : ∀ k, token' k = if k = h then some t else token k

namespace Adds

variable {token token' : Handle → Option Token} {h k : Handle} {t u : Token}

theorem self (ha : Adds token token' h t) : token' h = some t := by
  rw [ha.eq_ite, if_pos rfl]

theorem ne (ha : Adds token token' h t) (hk : token k = some u) : k ≠ h := by
  rintro rfl
  simp [ha.absent] at hk

theorem keep (ha : Adds token token' h t) (hk : token k = some u) : token' k = some u := by
  rw [ha.eq_ite, if_neg (ha.ne hk), hk]

theorem eq_or (ha : Adds token token' h t) (hk : token' k = some u) :
    k = h ∧ t = u ∨ token k = some u := by
  rw [ha.eq_ite] at hk
  split at hk
  · exact .inl ⟨by assumption, Option.some.inj hk⟩
  · exact .inr hk

end Adds

theorem adds_addContext (s : Session) (c : Context) :
    Adds s.token? (s.addContext c).token? (.context s.contexts.length) c.token where
  absent := by simp [token?]
  eq_ite k := by cases k <;> grind [token?, addContext]

theorem adds_addToken (s : Session) (t : Token) :
    Adds s.token? (s.addToken t).token? (.token s.tokens.length) t where
  absent := by simp [token?]
  eq_ite k := by cases k <;> grind [token?, addToken]

/-- All that a step can do to the tokens of a session. -/
inductive StepEffect (s : Session) (x : SessionStep) : Prop where
  /-- A handle is made from no other, with a flag of its own. -/
  | original (b : Birth) (birth : s.birth? x = some b) (cancel : s.cancel? x = none)
      (source : b.step.source? = none) (board : (s.step x).board = ⟨s.board.flags ++ [false]⟩)
      (adds : Adds s.token? (s.step x).token? b.handle ⟨s.board.flags.length⟩)
  /-- A handle is made from another, with the flag of that one. -/
  | copy (b : Birth) (p : Handle) (t : Token) (birth : s.birth? x = some b)
      (cancel : s.cancel? x = none) (source : b.step.source? = some p)
      (parent : s.token? p = some t) (board : (s.step x).board = s.board)
      (adds : Adds s.token? (s.step x).token? b.handle t)
  /-- The flag of a handle is raised. -/
  | cancel (h : Handle) (t : Token) (birth : s.birth? x = none) (cancel : s.cancel? x = some h)
      (through : s.token? h = some t) (board : (s.step x).board = s.board.cancel t)
      (tokens : (s.step x).token? = s.token?)
  /-- Nothing happens. -/
  | none (birth : s.birth? x = none) (cancel : s.cancel? x = none)
      (board : (s.step x).board = s.board) (tokens : (s.step x).token? = s.token?)

variable {x : SessionStep}

theorem token?_context {i : Nat} {c : Context} (hc : s.contexts[i]? = some c) :
    s.token? (.context i) = some c.token := by
  simp [token?, hc]

theorem token?_context_none {i : Nat} (hc : s.contexts[i]? = none) :
    s.token? (.context i) = none := by
  simp [token?, hc]

/-- A step that finds what it makes a handle from makes it. -/
theorem birth?_of_source {p : Handle} {t : Token} {h : Handle} (hsource : x.source? = some p)
    (hp : s.token? p = some t) (hnew : s.newHandle? x = some h) :
    s.birth? x = some ⟨h, x, s.now⟩ := by
  simp [birth?, has, hsource, hp, hnew]

/-- A step that does not find what it makes a handle from does nothing. -/
theorem stepEffect_of_source_none {p : Handle} (hsource : x.source? = some p)
    (hp : s.token? p = none) (htarget : x.target? = none) (hstep : s.step x = s) :
    StepEffect s x :=
  .none (by simp [birth?, has, hsource, hp]) (by simp [cancel?, htarget]) (by rw [hstep])
    (by rw [hstep])

/-- A step that does not find what it cancels through does nothing. -/
theorem stepEffect_of_target_none {p : Handle} (hnew : s.newHandle? x = none)
    (htarget : x.target? = some p) (hp : s.token? p = none) (hstep : s.step x = s) :
    StepEffect s x :=
  .none (by simp [birth?, hnew]) (by simp [cancel?, has, htarget, hp]) (by rw [hstep])
    (by rw [hstep])

/-- A step that finds what it makes a handle from makes one with the same token. -/
theorem stepEffect_copy {s' : Session} {p h : Handle} {t : Token} (hsource : x.source? = some p)
    (hp : s.token? p = some t) (hnew : s.newHandle? x = some h) (htarget : x.target? = none)
    (hstep : s.step x = s') (hboard : s'.board = s.board)
    (hadds : Adds s.token? s'.token? h t) : StepEffect s x := by
  subst hstep
  refine .copy ⟨h, x, s.now⟩ p t ?_ ?_ hsource hp hboard hadds
  · exact birth?_of_source hsource hp hnew
  · simp [cancel?, htarget]

theorem stepEffect_cancel {p : Handle} {t : Token} (hnew : s.newHandle? x = none)
    (htarget : x.target? = some p) (hp : s.token? p = some t)
    (hstep : s.step x = s.cancel t) : StepEffect s x := by
  refine .cancel p t ?_ ?_ hp ?_ ?_
  · simp [birth?, hnew]
  · simp [cancel?, has, htarget, hp]
  · rw [hstep]
    rfl
  · rw [hstep]
    rfl

theorem onContext_some {i : Nat} {c : Context} (h : s.contexts[i]? = some c)
    (f : Context → Session) : s.onContext i f = f c := by
  simp [onContext, h]

theorem onContext_none {i : Nat} (h : s.contexts[i]? = none) (f : Context → Session) :
    s.onContext i f = s := by
  simp [onContext, h]

theorem onToken_some {i : Nat} {t : Token} (h : s.tokens[i]? = some t)
    (f : Token → Session) : s.onToken i f = f t := by
  simp [onToken, h]

theorem onToken_none {i : Nat} (h : s.tokens[i]? = none) (f : Token → Session) :
    s.onToken i f = s := by
  simp [onToken, h]

/-- What holds of a session, and of all that becomes of it with a context, holds of it with the
context of a number, if there is one. -/
theorem onContext_of {P : Session → Prop} {i : Nat} {f : Context → Session} (hs : P s)
    (hf : ∀ c, P (f c)) : P (s.onContext i f) := by
  rcases hc : s.contexts[i]? with _ | c
  · rwa [onContext_none hc]
  · rw [onContext_some hc]
    exact hf c

theorem onToken_of {P : Session → Prop} {i : Nat} {f : Token → Session} (hs : P s)
    (hf : ∀ t, P (f t)) : P (s.onToken i f) := by
  rcases ht : s.tokens[i]? with _ | t
  · rwa [onToken_none ht]
  · rw [onToken_some ht]
    exact hf t

/-- What a step that makes a context from a context does. -/
theorem stepEffect_ofContext {i : Nat} {f : Context → Context}
    (hf : ∀ c, (f c).token = c.token) (hsource : x.source? = some (.context i))
    (hnew : s.newHandle? x = some (.context s.contexts.length)) (htarget : x.target? = none)
    (hstep : s.step x = s.onContext i fun c => s.addContext (f c)) : StepEffect s x := by
  rcases hc : s.contexts[i]? with _ | c
  · rw [onContext_none hc] at hstep
    exact stepEffect_of_source_none hsource (token?_context_none hc) htarget hstep
  · rw [onContext_some hc] at hstep
    refine stepEffect_copy hsource (token?_context hc) hnew htarget hstep rfl ?_
    rw [← hf c]
    exact adds_addContext s (f c)

theorem stepEffect (s : Session) (x : SessionStep) : StepEffect s x := by
  cases x with
  | newContext => exact .original _ rfl rfl rfl rfl (adds_addContext ..)
  | contextOf i =>
    rcases ht : s.tokens[i]? with _ | t
    · exact stepEffect_of_source_none (p := .token i) rfl ht rfl (onToken_none ht _)
    · exact stepEffect_copy (p := .token i) rfl ht rfl rfl (onToken_some ht _) rfl
        (adds_addContext ..)
  | copyContext i => exact stepEffect_ofContext (f := id) (fun _ => rfl) rfl rfl rfl rfl
  | withDeadline i deadline =>
    exact stepEffect_ofContext (f := (·.withDeadline deadline)) (fun _ => rfl) rfl rfl rfl rfl
  | withTimeout i span =>
    exact stepEffect_ofContext (f := (·.withTimeout s.now span)) (fun _ => rfl) rfl rfl rfl rfl
  | cancelContext i =>
    rcases hc : s.contexts[i]? with _ | c
    · exact stepEffect_of_target_none rfl rfl (token?_context_none hc) (onContext_none hc _)
    · exact stepEffect_cancel rfl rfl (token?_context hc) (onContext_some hc _)
  | newToken => exact .original _ rfl rfl rfl rfl (adds_addToken ..)
  | tokenOf i =>
    rcases hc : s.contexts[i]? with _ | c
    · exact stepEffect_of_source_none rfl (token?_context_none hc) rfl (onContext_none hc _)
    · exact stepEffect_copy rfl (token?_context hc) rfl rfl (onContext_some hc _) rfl
        (adds_addToken ..)
  | copyToken i =>
    rcases ht : s.tokens[i]? with _ | t
    · exact stepEffect_of_source_none (p := .token i) rfl ht rfl (onToken_none ht _)
    · exact stepEffect_copy (p := .token i) rfl ht rfl rfl (onToken_some ht _) rfl
        (adds_addToken ..)
  | cancelToken i =>
    rcases ht : s.tokens[i]? with _ | t
    · exact stepEffect_of_target_none (p := .token i) rfl rfl ht (onToken_none ht _)
    · exact stepEffect_cancel (p := .token i) rfl rfl ht (onToken_some ht _)
  | wait span => exact .none rfl rfl rfl rfl

/-- What there was stays. -/
theorem token?_step {h : Handle} {t : Token} (ht : s.token? h = some t) (x : SessionStep) :
    (s.step x).token? h = some t := by
  cases stepEffect s x with
  | original _ _ _ _ _ adds | copy _ _ _ _ _ _ _ _ adds => exact adds.keep ht
  | cancel _ _ _ _ _ _ tokens | none _ _ _ tokens => rwa [tokens]

end Session

/-! ## Whose token a handle has -/

/-- How the tokens of handles go with what the handles were made from. -/
structure Lineage (token : Handle → Option Token) (births : List Birth) : Prop where
  /-- What was made is there. -/
  made : ∀ b ∈ births, ∃ t, token b.handle = some t
  /-- It was made once. -/
  once : ∀ b ∈ births, ∀ b' ∈ births, b.handle = b'.handle → b = b'
  /-- What is there goes back to a handle that was made from no other. -/
  back : ∀ h t, token h = some t → ∃ o, DescendsFrom births o h
  /-- A handle that was made from another has the token of that one. -/
  shared : ∀ b ∈ births, ∀ p, b.step.source? = some p → token p = token b.handle
  /-- Handles that were made from no other have tokens of their own. -/
  apart : ∀ b ∈ births, ∀ b' ∈ births, b.step.source? = none → b'.step.source? = none →
    token b.handle = token b'.handle → b.handle = b'.handle

namespace Lineage

variable {token token' : Handle → Option Token} {births : List Birth}

/-- The handles that are there are those that were made. -/
theorem exists_token_iff (hl : Lineage token births) (h : Handle) :
    (∃ t, token h = some t) ↔ ∃ b ∈ births, b.handle = h := by
  constructor
  · rintro ⟨t, ht⟩
    obtain ⟨o, ho⟩ := hl.back h t ht
    exact ho.exists_birth
  · rintro ⟨b, hb, rfl⟩
    exact hl.made b hb

/-- A handle has the token of the one that it goes back to. -/
theorem token_eq (hl : Lineage token births) {o h : Handle} (hh : DescendsFrom births o h) :
    token o = token h := by
  induction hh with
  | original => rfl
  | made hb hsome _ ih => rw [ih, hl.shared _ hb _ hsome]

/-- **Handles go back to the same one exactly if they have the same token.** -/
theorem related_iff (hl : Lineage token births) {h h' : Handle} {t t' : Token}
    (ht : token h = some t) (ht' : token h' = some t') : Related births h h' ↔ t = t' := by
  constructor
  · rintro ⟨o, ho, ho'⟩
    have heq := (hl.token_eq ho).symm.trans (hl.token_eq ho')
    rw [ht, ht'] at heq
    exact Option.some.inj heq
  · rintro rfl
    obtain ⟨o, ho⟩ := hl.back h t ht
    obtain ⟨o', ho'⟩ := hl.back h' t ht'
    obtain ⟨b, hb, hnone, rfl⟩ := ho.exists_original
    obtain ⟨b', hb', hnone', rfl⟩ := ho'.exists_original
    have heq : token b.handle = token b'.handle := by
      rw [hl.token_eq ho, hl.token_eq ho', ht, ht']
    have hsame := hl.apart b hb b' hb' hnone hnone' heq
    exact ⟨b.handle, ho, by rwa [hsame]⟩

/-- **What is made next keeps to this**: it has a token of its own, or that of the handle that it
was made from. -/
theorem concat (hl : Lineage token births) {b : Birth} {t : Token}
    (ha : Session.Adds token token' b.handle t)
    (hb : b.step.source? = none ∧ (∀ h, token h ≠ some t) ∨
      ∃ p, b.step.source? = some p ∧ token p = some t) :
    Lineage token' (births ++ [b]) := by
  have hsub : births ⊆ births ++ [b] := List.subset_append_left ..
  have hlast : b ∈ births ++ [b] := by simp
  have hother : ∀ a ∈ births, a.handle ≠ b.handle :=
    fun a hmem => (hl.made a hmem).elim fun _ => ha.ne
  have hold : ∀ a ∈ births, token' a.handle = token a.handle := by
    intro a hmem
    obtain ⟨u, hu⟩ := hl.made a hmem
    rw [ha.keep hu, hu]
  -- A handle that is made from no other has a token that none had before.
  have hown : b.step.source? = none → ∀ a ∈ births, token' a.handle ≠ token' b.handle := by
    intro hnone a hmem heq
    rw [hold a hmem, ha.self] at heq
    rcases hb with ⟨-, hfree⟩ | ⟨p, hsome, -⟩
    · exact hfree _ heq
    · simp [hnone] at hsome
  constructor
  case made =>
    refine List.forall_mem_append.2 ⟨fun a hmem => ?_, List.forall_mem_singleton.2 ⟨t, ha.self⟩⟩
    rw [hold a hmem]
    exact hl.made a hmem
  case once =>
    simp only [List.mem_append, List.mem_singleton]
    rintro a (hmem | rfl) a' (hmem' | rfl) heq
    · exact hl.once a hmem a' hmem' heq
    · exact absurd heq (hother a hmem)
    · exact absurd heq.symm (hother a' hmem')
    · rfl
  case back =>
    intro h u hu
    rcases ha.eq_or hu with ⟨rfl, -⟩ | hu
    · rcases hb with ⟨hnone, -⟩ | ⟨p, hsome, hp⟩
      · exact ⟨_, .original hlast hnone rfl⟩
      · obtain ⟨o, ho⟩ := hl.back p t hp
        exact ⟨o, .made hlast hsome (ho.mono hsub)⟩
    · obtain ⟨o, ho⟩ := hl.back h u hu
      exact ⟨o, ho.mono hsub⟩
  case shared =>
    refine List.forall_mem_append.2 ⟨fun a hmem p hp => ?_, List.forall_mem_singleton.2 ?_⟩
    · obtain ⟨u, hu⟩ := hl.made a hmem
      rw [ha.keep hu, ha.keep ((hl.shared a hmem p hp).trans hu)]
    · intro p hp
      rcases hb with ⟨hnone, -⟩ | ⟨q, hsome, hq⟩
      · simp [hnone] at hp
      · obtain rfl : q = p := by rwa [hsome, Option.some.injEq] at hp
        rw [ha.self, ha.keep hq]
  case apart =>
    simp only [List.mem_append, List.mem_singleton]
    rintro a (hmem | rfl) a' (hmem' | rfl) hnone hnone' heq
    · rw [hold a hmem, hold a' hmem'] at heq
      exact hl.apart a hmem a' hmem' hnone hnone' heq
    · exact absurd heq (hown hnone' a hmem)
    · exact absurd heq.symm (hown hnone a' hmem')
    · rfl

end Lineage

/-! ## Which flags are raised -/

/-- How the flags that are raised go with the handles that were cancelled through. -/
structure Raised (token : Handle → Option Token) (board : Switchboard) (cancels : List Handle) :
    Prop where
  /-- Every token has a flag. -/
  flag_lt : ∀ h t, token h = some t → t.flag < board.flags.length
  /-- What was cancelled through is there. -/
  there : ∀ h ∈ cancels, ∃ t, token h = some t
  /-- A flag is raised if one of its handles was cancelled through. -/
  raised : ∀ t, board.isCancelled t = true ↔ ∃ h ∈ cancels, token h = some t

namespace Switchboard

theorem isCancelled_concat_false (flags : List Bool) (t : Token) :
    isCancelled ⟨flags ++ [false]⟩ t = isCancelled ⟨flags⟩ t := by
  grind [isCancelled]

theorem isCancelled_cancel {b : Switchboard} {t : Token} (ht : t.flag < b.flags.length)
    (t' : Token) : (b.cancel t).isCancelled t' = (decide (t = t') || b.isCancelled t') := by
  by_cases h : t = t'
  · subst h
    simp [isCancelled, cancel, ht]
  · have hflag : t.flag ≠ t'.flag := fun heq => h (by cases t; cases t'; simp_all)
    simp [isCancelled, cancel, h, hflag]

theorem isCancelled_cancel_of {b : Switchboard} {t' : Token} (h : b.isCancelled t' = true)
    (t : Token) : (b.cancel t).isCancelled t' = true := by
  grind [isCancelled, cancel]

end Switchboard

namespace Raised

variable {token token' : Handle → Option Token} {board board' : Switchboard}
  {cancels : List Handle}

/-- A handle more raises no flag. -/
theorem grow (hr : Raised token board cancels)
    (hkeep : ∀ h t, token h = some t → token' h = some t)
    (hlt : ∀ h t, token' h = some t → t.flag < board'.flags.length)
    (hboard : ∀ t, board'.isCancelled t = board.isCancelled t) :
    Raised token' board' cancels where
  flag_lt := hlt
  there h hh := by
    obtain ⟨t, ht⟩ := hr.there h hh
    exact ⟨t, hkeep h t ht⟩
  raised t := by
    rw [hboard, hr.raised]
    refine ⟨fun ⟨h, hh, ht⟩ => ⟨h, hh, hkeep h t ht⟩, fun ⟨h, hh, ht⟩ => ⟨h, hh, ?_⟩⟩
    obtain ⟨u, hu⟩ := hr.there h hh
    rwa [hu, ← hkeep h u hu]

/-- Cancelling through a handle raises its flag, and no other. -/
theorem cancel (hr : Raised token board cancels) {h : Handle} {t : Token}
    (ht : token h = some t) : Raised token (board.cancel t) (cancels ++ [h]) where
  flag_lt h' t' ht' := by
    simpa [Switchboard.cancel] using hr.flag_lt h' t' ht'
  there h' hh' := by
    rcases List.mem_append.1 hh' with hh' | hh'
    · exact hr.there h' hh'
    · obtain rfl := List.mem_singleton.1 hh'
      exact ⟨t, ht⟩
  raised t' := by
    rw [Switchboard.isCancelled_cancel (hr.flag_lt h t ht), Bool.or_eq_true, decide_eq_true_iff,
      hr.raised]
    constructor
    · rintro (rfl | ⟨h', hh', ht'⟩)
      · exact ⟨h, by simp, ht⟩
      · exact ⟨h', by simp [hh'], ht'⟩
    · rintro ⟨h', hh', ht'⟩
      rcases List.mem_append.1 hh' with hh' | hh'
      · exact .inr ⟨h', hh', ht'⟩
      · obtain rfl := List.mem_singleton.1 hh'
        exact .inl (Option.some.inj (ht.symm.trans ht'))

end Raised

namespace Session

variable {s : Session}

/-! ## All steps -/

theorem lineage_step {bs : List Birth} {cs : List Handle} (hl : Lineage s.token? bs)
    (hr : Raised s.token? s.board cs) (x : SessionStep) :
    Lineage (s.step x).token? (bs ++ (s.birth? x).toList) ∧
      Raised (s.step x).token? (s.step x).board (cs ++ (s.cancel? x).toList) := by
  have hkeep : ∀ h t, s.token? h = some t → (s.step x).token? h = some t :=
    fun h t ht => token?_step ht x
  cases stepEffect s x with
  | original b birth cancel source board adds =>
    -- The new flag comes after all that tokens have.
    have hfree : ∀ h, s.token? h ≠ some ⟨s.board.flags.length⟩ :=
      fun h ht => absurd (hr.flag_lt h _ ht) (Nat.lt_irrefl _)
    rw [birth, cancel, board, Option.toList_none, List.append_nil]
    refine ⟨hl.concat adds (.inl ⟨source, hfree⟩), hr.grow hkeep (fun h t ht => ?_)
      (Switchboard.isCancelled_concat_false _)⟩
    rw [List.length_append]
    rcases adds.eq_or ht with ⟨rfl, rfl⟩ | ht
    · exact Nat.lt_succ_self _
    · exact Nat.lt_succ_of_lt (hr.flag_lt h t ht)
  | copy b p t birth cancel source parent board adds =>
    rw [birth, cancel, board, Option.toList_none, List.append_nil]
    refine ⟨hl.concat adds (.inr ⟨p, source, parent⟩), hr.grow hkeep (fun h u hu => ?_)
      fun _ => rfl⟩
    rcases adds.eq_or hu with ⟨rfl, rfl⟩ | hu
    · exact hr.flag_lt p t parent
    · exact hr.flag_lt h u hu
  | cancel h t birth cancel through board tokens =>
    rw [birth, cancel, board, Option.toList_none, List.append_nil, tokens]
    exact ⟨hl, hr.cancel through⟩
  | none birth cancel board tokens =>
    rw [birth, cancel, board, Option.toList_none, Option.toList_none, List.append_nil,
      List.append_nil, tokens]
    exact ⟨hl, hr⟩

/-- Handles that are made, and cancelled through, in a session. -/
theorem lineage_run (start : Instant) (steps : List SessionStep) :
    Lineage ((new start).run steps).token? ((new start).births steps) ∧
      Raised ((new start).run steps).token? ((new start).run steps).board
        ((new start).cancels steps) := by
  induction steps using List.reverseRecOn with
  | nil =>
    have habsent : ∀ h, (new start).token? h = none := fun h => by cases h <;> rfl
    have hclear : ∀ t, (new start).board.isCancelled t = false := fun _ => rfl
    exact ⟨⟨by simp [births], by simp [births], by simp [run, habsent], by simp [births],
      by simp [births]⟩, ⟨by simp [run, habsent], by simp [cancels],
      by simp [run, cancels, hclear]⟩⟩
  | append_singleton steps x ih =>
    rw [run_append, births_concat, cancels_concat]
    exact lineage_step ih.1 ih.2 x

end Session

end QueryPlan
