import QueryPlan.Proofs.Run.Limit
import QueryPlan.Proofs.Tree.Origins

/-!
# What a run writes to the log

A run counts its visits and reports the count in one event, whichever way it ends: at
its limit, behind the last result, on a fired context or on an error of the node.  The
node is any node at all.

* `Loop.count_le_of_haltFrom?`, `Loop.exists_haltFrom?_within` — no run counts past its
  limit, and a run with a limit `k` ends within `2 * k + 1` turns.
* `Event.TellsOf` — what an event says about a run, in its level, its message and its
  fields; `tellsOf_ofHalt` says it of the event that a run leaves.
* `Run.Logs` — the same for what a flavour of runs answers, with the visits counted by a
  watched run; `Run.every_run_is_logged` proves it of all flavours.
-/

namespace QueryPlan

/-! ## Counts and limits -/

/-- The turns that can pass before the cursor over results moves again, if nothing is visited. -/
def Phase.delay : Phase → Nat
  | .results => 0
  | .paths => 1

theorem Phase.delay_le (phase : Phase) : phase.delay ≤ 1 := by
  cases phase <;> decide

namespace Loop

variable {σ α ω : Type} [Operator σ α]

/-- A run that ends has not counted past its limit. -/
theorem count_le_of_haltFrom? {l : Loop σ ω} {turns : Nat} {it : σ} {w : ω} {h : Halt σ ω}
    {k : Nat} (hk : l.options.limit = some k) (hh : l.haltFrom? turns (.start it w) = some h) :
    h.count ≤ k := by
  obtain ⟨s, hs, ht⟩ := reaches_of_haltFrom? hh
  rw [count_of_turn_eq_halt ht]
  exact hs.count_le hk

/-- The turns left below a limit: there may be two for each visit, the one that pays it and one
that finds no further way of reaching what was visited. -/
def roomBelow (k : Nat) (s : Stand σ ω) : Nat := 2 * (k - s.count) + s.phase.delay

theorem roomBelow_lt {l : Loop σ ω} {k : Nat} (hk : l.options.limit = some k)
    {s s' : Stand σ ω} (h : l.turn s = .go s') : roomBelow k s' < roomBelow k s := by
  obtain ⟨hreached, -, hgo⟩ := turn_eq_go h
  have hlt : s.count < k := by simpa [RunOptions.reached, hk] using hreached
  rcases hgo with ⟨-, rfl⟩ | ⟨-, hp, rfl⟩
  -- a visit takes two turns off and may add one; turning back takes that one off
  · have hdelay := (l.phaseAfter s.phase).delay_le
    simp only [roomBelow, visited]
    omega
  · simp [roomBelow, turnedBack, hp, Phase.delay]

/-- **A run with a limit comes to an end**, over any node and in any world. -/
theorem exists_haltFrom?_within {l : Loop σ ω} {k : Nat} (hk : l.options.limit = some k)
    {turns : Nat} (hturns : 2 * k < turns) (it : σ) (w : ω) :
    ∃ h, l.haltFrom? turns (.start it w) = some h := by
  refine exists_haltFrom?_of_lt (roomBelow k) (fun _ _ _ ht => roomBelow_lt hk ht) ?_
  simpa [roomBelow, Stand.start, Phase.delay] using hturns

end Loop

/-! ## What an event tells -/

/-- The event says of a run over the node with that identity how many results it visited and
how it ended. -/
structure Event.TellsOf {β : Type} (event : Event) (uid : Uid) (visits : Nat)
    (outcome : Except QueryError β) : Prop where
  /-- It is about that node. -/
  uid_eq : event.uid = uid
  /-- It gives the number of visits. -/
  results : ("results", countText visits) ∈ event.fields
  /-- A run that succeeded has finished … -/
  of_ok : ∀ x, outcome = .ok x → event = .finished uid visits
  /-- … and a run that returned an error was stopped by it. -/
  of_error : ∀ e, outcome = .error e → event = .stopped uid visits e
  /-- For those who look into a query: the run finished. -/
  finished_iff :
    event.level = .debug ∧ event.message = "iteration finished" ↔ ∃ x, outcome = .ok x
  /-- For everyone: the run was stopped. -/
  stopped_iff :
    event.level = .warn ∧ event.message = "iteration stopped" ↔ ∃ e, outcome = .error e
  /-- It gives the text of the error. -/
  error_text : ∀ e, outcome = .error e → ("error", e.message) ∈ event.fields

namespace Event

theorem tellsOf_finished {β : Type} (uid : Uid) (visits : Nat) (x : β) :
    (Event.finished uid visits).TellsOf uid visits (.ok x : Except QueryError β) where
  uid_eq := rfl
  results := List.mem_cons_self
  of_ok _ _ := rfl
  of_error _ h := by cases h
  finished_iff := ⟨fun _ => ⟨x, rfl⟩, fun _ => ⟨rfl, rfl⟩⟩
  stopped_iff := by simp [level]
  error_text _ h := by cases h

theorem tellsOf_stopped {β : Type} (uid : Uid) (visits : Nat) (e : QueryError) :
    (Event.stopped uid visits e).TellsOf uid visits (.error e : Except QueryError β) where
  uid_eq := rfl
  results := List.mem_cons_self
  of_ok _ h := by cases h
  of_error _ h := by cases h; rfl
  finished_iff := by simp [level]
  stopped_iff := ⟨fun _ => ⟨e, rfl⟩, fun _ => ⟨rfl, rfl⟩⟩
  error_text _ h := by cases h; exact List.mem_cons_of_mem _ List.mem_cons_self

/-- Another answer in place of the one that a run returned makes no difference. -/
theorem TellsOf.map {β γ : Type} {event : Event} {uid : Uid} {visits : Nat}
    {outcome : Except QueryError β} (h : event.TellsOf uid visits outcome) (f : β → γ) :
    event.TellsOf uid visits (outcome.map f) := by
  cases outcome with
  | ok x =>
    obtain rfl := h.of_ok x rfl
    exact tellsOf_finished uid visits (f x)
  | error e =>
    obtain rfl := h.of_error e rfl
    exact tellsOf_stopped uid visits e

end Event

/-- The event that a run leaves tells of it. -/
theorem Report.tellsOf_ofHalt {σ ω : Type} (uid : Uid) (h : Halt σ ω) :
    (ofHalt uid h).event.TellsOf uid h.count (ofHalt uid h).outcome := by
  obtain ⟨it, w, visits, err⟩ := h
  cases err with
  | none => exact Event.tellsOf_finished uid visits visits
  | some e => exact Event.tellsOf_stopped uid visits e

/-! ## What is logged of a run -/

namespace Run

variable {σ α ω : Type} [Operator σ α]

/-- What runs over the node answer, turn limit by turn limit, is logged truly: the one event of
an answer tells of the visits that the watched run pays, which are not more than the limit. -/
structure Logs {ω' β : Type} (r : Run ω) (visit : σ → ω → ω) (it : σ) (w : ω)
    (answers : Nat → Option (Report σ ω' β)) : Prop where
  /-- The event of an answer tells of the run. -/
  logged : ∀ turns rep, answers turns = some rep →
    ∃ rec, r.observed visit turns it w = some rec ∧ rep.it = rec.it.node ∧
      rep.event.TellsOf (Operator.uid it) rec.world.2.length rep.outcome ∧
      ∀ k, r.options.limit = some k → rec.world.2.length ≤ k
  /-- There is one answer only, whatever the number of turns that it was seen after. -/
  once : ∀ m n p q, answers m = some p → answers n = some q → p = q
  /-- There is one if the run comes to an end … -/
  ends : ∀ s h, (r.loop visit).Reaches (.start it w) s → (r.loop visit).turn s = .halt h →
    ∃ turns, (answers turns).isSome = true
  /-- … as a run with a limit does. -/
  ends_within : ∀ k turns, r.options.limit = some k → 2 * k < turns →
    (answers turns).isSome = true

theorem logs_visiting (r : Run ω) (visit : σ → ω → ω) (it : σ) (w : ω) :
    r.Logs visit it w fun turns => r.visiting visit turns it w where
  logged turns rep h := by
    rw [visiting_eq_observed, Option.map_eq_some_iff] at h
    obtain ⟨rec, hrec, rfl⟩ := h
    obtain ⟨e, he, rfl, -, hworld, hlen⟩ := of_observed_eq_some hrec
    refine ⟨_, hrec, rfl, ?_, fun k hk => ?_⟩
    · rw [hworld, hlen]
      exact Report.tellsOf_ofHalt (Operator.uid it) e
    · rw [hworld, hlen]
      exact Loop.count_le_of_haltFrom? hk he
  once m n p q hp hq := by
    rw [visiting_eq, Option.map_eq_some_iff] at hp hq
    obtain ⟨h, hh, rfl⟩ := hp
    obtain ⟨h', hh', rfl⟩ := hq
    rw [Loop.haltFrom?_unique hh hh']
  ends s h hs ht := by
    obtain ⟨turns, hh⟩ := Loop.exists_haltFrom?_iff.2 ⟨s, hs, ht⟩
    exact ⟨turns, by rw [visiting_eq, hh]; rfl⟩
  ends_within k turns hk hturns := by
    obtain ⟨h, hh⟩ := Loop.exists_haltFrom?_within (l := r.loop visit) hk hturns it w
    rw [visiting_eq, hh]
    rfl

/-- A flavour that reads its answer off the world is logged as the run is. -/
theorem Logs.reading {ω' β : Type} {r : Run ω} {visit : σ → ω → ω} {it : σ} {w : ω}
    {answers : Nat → Option (Report σ ω Nat)} (h : r.Logs visit it w answers)
    (world : ω → ω') (answer : ω → β) :
    r.Logs visit it w fun turns => (answers turns).map (Report.reading world answer) where
  logged turns rep hrep := by
    obtain ⟨p, hp, rfl⟩ := Option.map_eq_some_iff.1 hrep
    obtain ⟨rec, hrec, hit, htells, hlimit⟩ := h.logged turns p hp
    exact ⟨rec, hrec, hit, htells.map _, hlimit⟩
  once m n p q hp hq := by
    obtain ⟨p', hp', rfl⟩ := Option.map_eq_some_iff.1 hp
    obtain ⟨q', hq', rfl⟩ := Option.map_eq_some_iff.1 hq
    rw [h.once m n p' q' hp' hq']
  ends s e hs ht := by
    obtain ⟨turns, hsome⟩ := h.ends s e hs ht
    exact ⟨turns, by rwa [Option.isSome_map]⟩
  ends_within k turns hk hturns := by
    rw [Option.isSome_map]
    exact h.ends_within k turns hk hturns

/-- A run that returns a count has logged that count. -/
theorem event_of_ok {r : Run ω} {visit : σ → ω → ω} {turns : Nat} {it : σ} {w : ω}
    {rep : Report σ ω Nat} {n : Nat} (h : r.visiting visit turns it w = some rep)
    (hok : rep.outcome = .ok n) : rep.event = .finished (Operator.uid it) n := by
  rw [visiting_eq, Option.map_eq_some_iff] at h
  obtain ⟨e, -, rfl⟩ := h
  obtain ⟨it, w, visits, err⟩ := e
  cases err with
  | none =>
    cases hok
    rfl
  | some e => cases hok

/-- **Every run is logged once, with the true count.**  Over any node, in any world and with any
options, a run in any of its flavours leaves one event.  It names the node and the number of
visits paid, which is the number returned and not above the limit; it says that the run has
finished if and only if the run returned no error, and otherwise gives the text of that error,
however many results came before it. -/
theorem every_run_is_logged (r : Run ω) (it : σ) (w : ω) :
    (∀ visit : σ → ω → ω,
      (r.Logs visit it w fun turns => r.visiting visit turns it w) ∧
      ∀ turns rep n, r.visiting visit turns it w = some rep → rep.outcome = .ok n →
        rep.event = .finished (Operator.uid it) n) ∧
    (∀ f : α → ω → ω, r.Logs (onResult f) it w fun turns => r.each f turns it w) ∧
    (∀ f : Bindings α → ω → ω, r.Logs (onTags f) it w fun turns => r.eachTagged f turns it w) ∧
    (r.Logs (fun _ w => w) it w fun turns => r.count turns it w) ∧
    ((r.gathering (List α)).Logs gather it (w, []) fun turns => r.all turns it w) ∧
    (((r.withLimit (limitOfFirst r.options.limit)).gathering (Option α)).Logs keep it (w, none)
      fun turns => r.first turns it w) := by
  refine ⟨fun visit => ⟨logs_visiting r visit it w, fun _ _ _ => event_of_ok⟩, fun f => ?_,
    fun f => ?_, logs_visiting r _ it w, ?_, ?_⟩
  · exact (logs_visiting r (onResult f) it w).reading id fun _ => ()
  · exact (logs_visiting r (onTags f) it w).reading id fun _ => ()
  · exact (logs_visiting (r.gathering (List α)) gather it (w, [])).reading Prod.fst Prod.snd
  · exact (logs_visiting ((r.withLimit (limitOfFirst r.options.limit)).gathering (Option α)) keep
      it (w, none)).reading Prod.fst Prod.snd

/-- A run that is cancelled at its second visit is logged with two results and its error. -/
theorem every_run_is_logged_cancelledAtTwo :
    ∃ rep, cancelledAtTwo.visiting (fun _ n => n + 1) 8 (Cursor.start threeRows) 0 = some rep ∧
      rep.outcome = .error .cancelled ∧ rep.event = .stopped ⟨0⟩ 2 .cancelled ∧
      rep.event.level = .warn ∧ ("error", "query cancelled") ∈ rep.event.fields := by
  obtain ⟨rep, hrep, hout⟩ : ∃ rep,
      cancelledAtTwo.visiting (fun _ n => n + 1) 8 (Cursor.start threeRows) 0 = some rep ∧
        rep.outcome = .error .cancelled := ⟨_, rfl, rfl⟩
  obtain ⟨hvisiting, -⟩ := every_run_is_logged cancelledAtTwo (Cursor.start threeRows) 0
  obtain ⟨rec, hrec, -, htells, -⟩ := (hvisiting fun _ n => n + 1).1.logged 8 rep hrep
  have hvisits : rec.world.2.length = 2 := by
    cases hrec
    rfl
  rw [hvisits] at htells
  exact ⟨rep, hrep, hout, htells.of_error .cancelled hout,
    (htells.stopped_iff.2 ⟨.cancelled, hout⟩).1, htells.error_text .cancelled hout⟩

end Run

end QueryPlan
