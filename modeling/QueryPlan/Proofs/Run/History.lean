import QueryPlan.Proofs.Run.Watching

/-!
# Histories of a node

Between its start and some later moment a node is asked for this and that, one `Request`
after the other, each with a context of its own, and now and then a whole run goes over it.
`Leads allowed it it'` says that such a history, made of requests of an allowed kind, turns
the one state of the node into the other.

* `Run.node_of_observed` — a run changes its node by the calls in its record and by nothing
  else.
* `Leads.exists_requests` — so a history with runs in it is as good as a list of requests.
* `Leads.invariant` — what every allowed request keeps, a history keeps.
-/

namespace QueryPlan

/-- Something that is asked of a node, with the signal that its context shows where it is
handed one. -/
inductive Request (α : Type) where
  /-- Move to the next result. -/
  | next (s : Signal)
  /-- Move to the next way of reaching the current result. -/
  | nextPath (s : Signal)
  /-- Test a candidate. -/
  | contains (s : Signal) (x : α)
  /-- Move both cursors back to the start. -/
  | rewind
  /-- Release what the node owns. -/
  | close
  /-- Read something off the node: its result, bindings, state, error, size or costs. -/
  | read

namespace Request

variable {σ α : Type}

/-- What the context of a request shows; a request without a context sees nothing. -/
def signal : Request α → Signal
  | .next s | .nextPath s | .contains s _ => s
  | .rewind | .close | .read => .clear

/-- Is the request made under a context that shows nothing? -/
def Clear (q : Request α) : Prop := q.signal = .clear

theorem Clear.error?_eq_none {q : Request α} (hq : q.Clear) : q.signal.error? = none := by
  rw [show q.signal = .clear from hq]
  rfl

/-- Is the request any but one to rewind? -/
def KeepsPlace : Request α → Prop
  | .rewind => False
  | _ => True

variable [Operator σ α]

/-- What a request makes of a node. -/
def after (q : Request α) (it : σ) : σ :=
  match q with
  | .next s => (Operator.next s it).2
  | .nextPath s => (Operator.nextPath s it).2
  | .contains s x => (Operator.contains s x it).2
  | .rewind => Operator.rewind it
  | .close => (Operator.close it).2
  | .read => it

/-- What requests make of a node, one after the other. -/
def afterAll (qs : List (Request α)) (it : σ) : σ := qs.foldl (fun it q => q.after it) it

@[simp] theorem afterAll_nil (it : σ) : afterAll [] it = it := rfl

@[simp] theorem afterAll_cons (q : Request α) (qs : List (Request α)) (it : σ) :
    afterAll (q :: qs) it = afterAll qs (q.after it) := rfl

theorem afterAll_append (qs qs' : List (Request α)) (it : σ) :
    afterAll (qs ++ qs') it = afterAll qs' (afterAll qs it) := List.foldl_append

/-- What every request in a list keeps, the list keeps. -/
theorem afterAll_invariant {P : σ → Prop} {qs : List (Request α)}
    (hstep : ∀ q ∈ qs, ∀ it, P it → P (q.after it)) : ∀ {it : σ}, P it → P (afterAll qs it) := by
  induction qs with
  | nil => exact id
  | cons q qs ih =>
    intro it h
    exact ih (fun q' hq' => hstep q' (List.mem_cons_of_mem _ hq'))
      (hstep q List.mem_cons_self it h)

end Request

/-- The request that a call in a record was. -/
def Call.request {α : Type} (c : Call) : Request α :=
  match c.cursor with
  | .results => .next c.signal
  | .paths => .nextPath c.signal

/-! ## What a run does to its node -/

namespace Run

variable {σ α ω : Type} [Operator σ α]

/-- The record of a node tells how it came to be what it is. -/
def Told (it : σ) (n : Recorded σ) : Prop :=
  n.node = Request.afterAll (n.calls.map Call.request) it

theorem told_move {it : σ} {n : Recorded σ} (h : Told it n) (phase : Phase) (s : Signal) :
    Told it (Operator.move phase s n).2 := by
  have hlast (yes : Bool) : (Operator.move phase s n.node).2 =
      Request.after (Call.request ⟨phase, s, yes⟩) n.node := by cases phase <;> rfl
  rw [Recorded.move_eq]
  show (Operator.move phase s n.node).2 = Request.afterAll (List.map Call.request (n.calls ++ _)) it
  rw [List.map_append, Request.afterAll_append, ← show n.node = _ from h]
  exact hlast _

theorem told_of_reaches {r : Run ω} {visit : σ → ω → ω} {it : σ} {w : ω}
    {s : Stand (Recorded σ) (ω × List (Recorded σ))}
    (hs : (r.watched visit).Reaches (watchedStart it w) s) : Told it s.it := by
  refine hs.invariant (P := fun t => Told it t.it) ?_ rfl
  intro t t' _ htold ht
  obtain ⟨-, -, ⟨-, rfl⟩ | ⟨-, -, rfl⟩⟩ := Loop.turn_eq_go ht
  · exact told_move htold _ _
  · exact told_move htold _ _

/-- **A run changes its node by its calls alone.** -/
theorem node_of_observed {r : Run ω} {visit : σ → ω → ω} {turns : Nat} {it : σ} {w : ω}
    {rep : Report (Recorded σ) (ω × List (Recorded σ)) Nat}
    (h : r.observed visit turns it w = some rep) :
    rep.it.node = Request.afterAll (rep.it.calls.map Call.request) it := by
  obtain ⟨e, he, -, hit, -, -⟩ := of_observed_eq_some h
  obtain ⟨s, hs, ht⟩ := Loop.reaches_of_haltFrom? he
  have htold := told_of_reaches hs
  rw [hit]
  rcases Loop.turn_eq_halt ht with ⟨-, rfl⟩ | ⟨-, e', -, rfl⟩ | ⟨-, -, -, -, rfl⟩
  · exact htold
  · exact htold
  · exact told_move htold _ _

end Run

/-! ## Histories -/

namespace Operator

variable {σ α : Type} [Operator σ α]

/-- The states of a node that an allowed history leads to.  A history is made of requests
and of runs; a run is allowed if its calls are. -/
inductive Leads (allowed : Request α → Prop) (it : σ) : σ → Prop where
  /-- Nothing happened yet. -/
  | refl : Leads allowed it it
  /-- Another request. -/
  | request {it' : σ} (q : Request α) (h : Leads allowed it it') (hq : allowed q) :
      Leads allowed it (q.after it')
  /-- Another run, with any options, in any world and with any visitor. -/
  | run {it' : σ} {ω : Type} (r : Run ω) (visit : σ → ω → ω) (turns : Nat) (w : ω)
      {rep : Report (Recorded σ) (ω × List (Recorded σ)) Nat} (h : Leads allowed it it')
      (hrep : r.observed visit turns it' w = some rep)
      (hcalls : ∀ call ∈ rep.it.calls, allowed call.request) : Leads allowed it rep.it.node

namespace Leads

variable {allowed : Request α → Prop} {it it' : σ}

/-- A history goes on with a list of allowed requests. -/
theorem requests : ∀ {qs : List (Request α)} {it' : σ}, Leads allowed it it' →
    (∀ q ∈ qs, allowed q) → Leads allowed it (Request.afterAll qs it') := by
  intro qs
  induction qs with
  | nil => exact fun h _ => h
  | cons q qs ih =>
    intro it' h hqs
    exact ih (.request q h (hqs q List.mem_cons_self)) fun q' hq' =>
      hqs q' (List.mem_cons_of_mem _ hq')

/-- **A history is as good as a list of requests**, for a run is as good as its calls. -/
theorem exists_requests (h : Leads allowed it it') :
    ∃ qs, (∀ q ∈ qs, allowed q) ∧ it' = Request.afterAll qs it := by
  induction h with
  | refl => exact ⟨[], fun q hq => absurd hq List.not_mem_nil, rfl⟩
  | request q _ hq ih =>
    obtain ⟨qs, hqs, rfl⟩ := ih
    refine ⟨qs ++ [q], fun q' hq' => ?_, (Request.afterAll_append qs [q] it).symm⟩
    rcases List.mem_append.1 hq' with h | h
    · exact hqs q' h
    · rwa [List.mem_singleton.1 h]
  | @run _ _ r visit turns w rep _ hrep hcalls ih =>
    obtain ⟨qs, hqs, rfl⟩ := ih
    refine ⟨qs ++ rep.it.calls.map Call.request, fun q' hq' => ?_, ?_⟩
    · rcases List.mem_append.1 hq' with h | h
      · exact hqs q' h
      · obtain ⟨call, hcall, rfl⟩ := List.mem_map.1 h
        exact hcalls call hcall
    · rw [Request.afterAll_append]
      exact Run.node_of_observed hrep

/-- **What every allowed request keeps, a history keeps.** -/
theorem invariant {P : σ → Prop} (hstep : ∀ q, allowed q → ∀ it, P it → P (q.after it))
    (h : Leads allowed it it') (hit : P it) : P it' := by
  obtain ⟨qs, hqs, rfl⟩ := h.exists_requests
  exact Request.afterAll_invariant (fun q hq => hstep q (hqs q hq)) hit

end Leads

end Operator

end QueryPlan
