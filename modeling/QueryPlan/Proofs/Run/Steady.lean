import QueryPlan.Proofs.Run.Firing

/-!
# Runs under a context that does not change

A run looks at its context again and again.  If every look shows the same, nothing of the world
gets through to the node: whatever the visitor does and however the world changes, the run makes
the calls and pays the visits of the run in a world in which nothing happens (`Run.still`).

* `Loop.haltFrom?_under` — a run whose context shows one signal is the run that is told that
  signal and does not look.
* `Run.haltFrom?_still` — so the still run is any such run without its world.
* `Run.exists_halt_of_observed`, `Run.exists_observed_of_halt` — what the one leaves behind the
  other leaves behind (`Report.Tells`).
-/

namespace QueryPlan

variable {σ α ω : Type} [Operator σ α]

namespace Loop

/-- The loop that takes this for what its context shows; looking still changes the world. -/
def under (l : Loop σ ω) (sig : Signal) : Loop σ ω :=
  { l with look := fun w => (sig, (l.look w).2) }

variable {l : Loop σ ω} {sig : Signal} {s s' : Stand σ ω}

theorem Shows.of_turn (h : l.Shows sig s) (ht : l.turn s = .go s') : l.Shows sig s' :=
  fun t hst => h t (hst.head ht)

/-- If the context shows this signal, it makes no difference to a turn whether it is looked at. -/
theorem turn_under (h : l.Shows sig s) : (l.under sig).turn s = l.turn s := by
  have hreached : (l.under sig).options.reached s.count = l.options.reached s.count := rfl
  cases hr : l.options.reached s.count with
  | true =>
    rw [turn_of_reached hr, turn_of_reached (hreached.trans hr)]
  | false =>
    obtain ⟨hseen, hhanded⟩ := h s .refl hr
    have hseen' : (l.under sig).seen s = l.seen s := hseen.symm
    have hhanded' : (l.under sig).handed s = l.handed s := hhanded.symm
    have htried : (l.under sig).tried s = l.tried s := by rw [tried, tried, hhanded']
    rw [turn, turn, hreached, hseen', htried]
    rfl

/-- **A run whose context shows one signal** is the run that does not look. -/
theorem haltFrom?_under : ∀ {turns : Nat} {s : Stand σ ω}, l.Shows sig s →
    (l.under sig).haltFrom? turns s = l.haltFrom? turns s := by
  intro turns
  induction turns with
  | zero => intro s _; simp
  | succ n ih =>
    intro s h
    rw [haltFrom?_succ, haltFrom?_succ, turn_under h]
    cases ht : l.turn s with
    | halt e => rfl
    | go s' => exact ih (h.of_turn ht)

end Loop

/-! ## What a run answers -/

/-- The answer of a run that this error stopped or, if there is none, that came to this. -/
def Report.verdict {β : Type} (stop : Option QueryError) (x : β) : Except QueryError β :=
  match stop with
  | some e => .error e
  | none => .ok x

theorem Report.map_verdict {β γ : Type} (f : β → γ) (stop : Option QueryError) (x : β) :
    (verdict stop x).map f = verdict stop (f x) := by
  cases stop <;> rfl

/-- The report tells of this end of a run, which may have been in another world: the same calls,
the same visits and the same answer. -/
structure Report.Tells {ω' : Type} (rep : Report (Recorded σ) (ω × List (Recorded σ)) Nat)
    (e : Halt (Recorded σ) (ω' × List (Recorded σ))) : Prop where
  /-- The node and its record are the same. -/
  it : rep.it = e.it
  /-- The same nodes were visited. -/
  visits : rep.world.2 = e.world.2
  /-- The answer is that of the end. -/
  outcome : rep.outcome = verdict e.err e.count

/-! ## The still run -/

namespace Run

/-- The run with these options in a world in which nothing happens and the context always shows
this signal. -/
def still (options : RunOptions) (sig : Signal) : Run Unit := ⟨options, fun w => (sig, w)⟩

/-- The still run over a recorded node; nothing is done at a visit. -/
def stillLoop (options : RunOptions) (sig : Signal) :
    Loop (Recorded σ) (Unit × List (Recorded σ)) :=
  (still options sig).watched fun _ w => w

/-- What is left of a world when nothing is remembered but a list. -/
def emptied {β : Type} (w : ω × β) : Unit × β := ((), w.2)

/-- The still run is what a run does that is told the signal, without the world. -/
theorem watches_still (r : Run ω) (visit : σ → ω → ω) (sig : Signal) :
    Watches ((r.watched visit).under sig) (stillLoop r.options sig) id emptied where
  options := rfl
  look _ := rfl
  visit _ _ := rfl
  move _ _ _ := rfl
  err _ := rfl

variable {r : Run ω} {visit : σ → ω → ω} {sig : Signal} {it : σ} {w : ω} {turns : Nat}

/-- **Under a context that does not change, the world makes no difference**: without it, any run
is the still run. -/
theorem haltFrom?_still (h : (r.loop visit).Shows sig (.start it w)) (turns : Nat) :
    (stillLoop r.options sig).haltFrom? turns (watchedStart it ()) =
      ((r.watched visit).haltFrom? turns (watchedStart it w)).map (Halt.map id emptied) := by
  have hwatched : (r.watched visit).Shows sig (watchedStart it w) := (r.watches visit).shows h
  rw [← Loop.haltFrom?_under hwatched, ← (watches_still r visit sig).haltFrom?_map]
  rfl

/-- What a run leaves behind the still run leaves behind … -/
theorem exists_halt_of_observed (h : (r.loop visit).Shows sig (.start it w))
    {rep : Report (Recorded σ) (ω × List (Recorded σ)) Nat}
    (hrep : r.observed visit turns it w = some rep) :
    ∃ e, (stillLoop r.options sig).haltFrom? turns (watchedStart it ()) = some e ∧
      rep.Tells e := by
  obtain ⟨e, he, rfl, hit, hworld, -⟩ := of_observed_eq_some hrep
  refine ⟨e.map id emptied, by rw [haltFrom?_still h, he]; rfl, hit, congrArg Prod.snd hworld, ?_⟩
  exact ofHalt_outcome (Operator.uid it) e

/-- … and the other way round. -/
theorem exists_observed_of_halt (h : (r.loop visit).Shows sig (.start it w))
    {e : Halt (Recorded σ) (Unit × List (Recorded σ))}
    (he : (stillLoop r.options sig).haltFrom? turns (watchedStart it ()) = some e) :
    ∃ rep, r.observed visit turns it w = some rep ∧ rep.Tells e := by
  rw [haltFrom?_still h, Option.map_eq_some_iff] at he
  obtain ⟨e, he, rfl⟩ := he
  refine ⟨Report.ofHalt (Operator.uid it) e, by rw [observed_eq, he]; rfl, ofHalt_it _ e, ?_, ?_⟩
  · rw [ofHalt_world]
    rfl
  · exact ofHalt_outcome (Operator.uid it) e

end Run

end QueryPlan
