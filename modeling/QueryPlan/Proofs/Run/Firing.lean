import QueryPlan.Plan.Tree.Moves
import QueryPlan.Proofs.Run.Watching

/-!
# What a fired context does to a run

A run looks at its context before every move, behind the limit and in front of the
node.  If the context fires before the run or at one of its visits, and at no other time
(`Loop.FiresAtVisits`), the run notices at once: no further call is made, and the node
is left as the visit left it.  `Loop.Shows` says that it shows one thing all the time, and
`Loop.Unfired` that it does not fire at all.

* `Run.calls_clear` — no call is made under a fired context.
* `Run.eq_lastVisit_of_stop` — where a run stops at its limit or on its context, the
  node is as it was at the last visit.
* `Run.fired_context_ends_run` — **cancellation is exact.**
-/

namespace QueryPlan

theorem Signal.error?_eq_none_iff {s : Signal} : s.error? = none ↔ s = .clear := by
  cases s <;> simp [Signal.error?]

theorem Signal.ne_clear_of_error? {s : Signal} {e : QueryError} (he : s.error? = some e) :
    s ≠ .clear := by
  rintro rfl
  cases he

/-- A fired context is reported as cancelled if it was cancelled, whatever its deadline, and
as expired otherwise. -/
theorem Context.error?_of_fired {c : Context} {b : Switchboard} {now : Instant}
    (h : (c.signal b now).fired = true) :
    (c.signal b now).error? =
      some (if b.isCancelled c.token then .cancelled else .deadlineExceeded) := by
  unfold Context.signal at h ⊢
  by_cases hc : b.isCancelled c.token = true
  · rw [if_pos hc, if_pos hc]
    rfl
  · rw [if_neg hc] at h ⊢
    rw [if_neg hc]
    by_cases he : c.isExpired now = true
    · rw [if_pos he]
      rfl
    · rw [if_neg he] at h
      cases h

namespace Loop

variable {σ α ω : Type} [Operator σ α]

/-- The context fires before the run or at a visit, and at no other time: the node is handed
what the run has just seen, and after a turn without a visit the run sees the same again. -/
def FiresAtVisits (l : Loop σ ω) (s₀ : Stand σ ω) : Prop :=
  ∀ s, l.Reaches s₀ s → l.options.reached s.count = false →
    l.handed s = l.seen s ∧ ∀ s', l.turn s = .go s' → s'.count = s.count → l.seen s' = l.seen s

/-- So it is when looking at the context changes nothing. -/
theorem firesAtVisits_of_look {l : Loop σ ω} (hl : ∀ w, (l.look w).2 = w) (s₀ : Stand σ ω) :
    l.FiresAtVisits s₀ := by
  refine fun s _ _ => ⟨by rw [handed, hl, seen], fun s' ht hc => ?_⟩
  obtain ⟨-, -, ⟨-, rfl⟩ | ⟨-, -, rfl⟩⟩ := turn_eq_go ht
  · exact absurd hc (Nat.succ_ne_self _)
  · rw [seen, seen, turnedBack, outside, hl, hl]

/-- The context shows this as long as the run lasts. -/
def Shows (l : Loop σ ω) (sig : Signal) (s₀ : Stand σ ω) : Prop :=
  ∀ s, l.Reaches s₀ s → l.options.reached s.count = false → l.seen s = sig ∧ l.handed s = sig

/-- The context shows nothing as long as the run lasts. -/
def Unfired (l : Loop σ ω) (s₀ : Stand σ ω) : Prop :=
  ∀ s, l.Reaches s₀ s → l.options.reached s.count = false →
    l.seen s = .clear ∧ l.handed s = .clear

theorem unfired_iff_shows {l : Loop σ ω} {s₀ : Stand σ ω} : l.Unfired s₀ ↔ l.Shows .clear s₀ :=
  Iff.rfl

/-- So it is when a look at the context shows nothing else. -/
theorem shows_of_look {l : Loop σ ω} {sig : Signal} (hl : ∀ w, (l.look w).1 = sig)
    (s₀ : Stand σ ω) : l.Shows sig s₀ := fun _ _ _ => ⟨hl _, hl _⟩

/-- So it is when a look at the context never shows anything. -/
theorem unfired_of_look {l : Loop σ ω} (hl : ∀ w, (l.look w).1 = .clear) (s₀ : Stand σ ω) :
    l.Unfired s₀ := unfired_iff_shows.2 (shows_of_look hl s₀)

end Loop

theorem Watches.shows {σ α ω σ' α' ω' : Type} [Operator σ α] [Operator σ' α']
    {l' : Loop σ' ω'} {l : Loop σ ω} {f : σ' → σ} {g : ω' → ω} (hw : Watches l' l f g)
    {sig : Signal} {s₀ : Stand σ' ω'} (h : l.Shows sig (s₀.map f g)) : l'.Shows sig s₀ := by
  intro s hs hr
  obtain ⟨hseen, hhanded⟩ := h (s.map f g) (hw.reaches_map hs) (by rw [← hw.options]; exact hr)
  exact ⟨by rw [← hw.seen_map, hseen], by rw [← hw.handed_map, hhanded]⟩

theorem Watches.unfired {σ α ω σ' α' ω' : Type} [Operator σ α] [Operator σ' α']
    {l' : Loop σ' ω'} {l : Loop σ ω} {f : σ' → σ} {g : ω' → ω} (hw : Watches l' l f g)
    {s₀ : Stand σ' ω'} (h : l.Unfired (s₀.map f g)) : l'.Unfired s₀ :=
  Loop.unfired_iff_shows.2 (hw.shows (Loop.unfired_iff_shows.1 h))

theorem Watches.firesAtVisits {σ α ω σ' α' ω' : Type} [Operator σ α] [Operator σ' α']
    {l' : Loop σ' ω'} {l : Loop σ ω} {f : σ' → σ} {g : ω' → ω} (hw : Watches l' l f g)
    {s₀ : Stand σ' ω'} (h : l.FiresAtVisits (s₀.map f g)) : l'.FiresAtVisits s₀ := by
  intro s hs hr
  obtain ⟨hhanded, hnext⟩ := h (s.map f g) (hw.reaches_map hs) (by rw [← hw.options]; exact hr)
  refine ⟨by rw [← hw.handed_map, hhanded, hw.seen_map], fun s' ht hc => ?_⟩
  have ht' : l.turn (s.map f g) = .go (s'.map f g) := by rw [hw.turn_map, ht, Turn.map]
  have := hnext _ ht' hc
  rwa [hw.seen_map, hw.seen_map] at this

namespace Run

variable {σ α ω : Type} [Operator σ α] {r : Run ω} {visit : σ → ω → ω} {it : σ} {w : ω}

/-- The signal that a call is made under is clear. -/
theorem handed_eq_clear {s₀ s : Stand (Recorded σ) (ω × List (Recorded σ))}
    (hf : (r.watched visit).FiresAtVisits s₀) (hs : (r.watched visit).Reaches s₀ s)
    (hr : (r.watched visit).options.reached s.count = false)
    (he : ((r.watched visit).seen s).error? = none) : (r.watched visit).handed s = .clear := by
  rw [(hf s hs hr).1]
  exact Signal.error?_eq_none_iff.1 he

/-- **No call is made under a fired context**, up to any stand of a run … -/
theorem calls_clear (hf : (r.watched visit).FiresAtVisits (watchedStart it w))
    {s : Stand (Recorded σ) (ω × List (Recorded σ))}
    (hs : (r.watched visit).Reaches (watchedStart it w) s) :
    ∀ c ∈ s.it.calls, c.signal = .clear := by
  refine hs.invariant (P := fun t => ∀ c ∈ t.it.calls, c.signal = .clear) ?_ ?_
  · intro t t' ht hclear hturn
    obtain ⟨hr, he, -⟩ := Loop.turn_eq_go hturn
    obtain ⟨c, hc, hcalls, -⟩ := watched_turn_eq_go hturn
    rw [hcalls]
    intro c' hc'
    rcases List.mem_append.1 hc' with h | h
    · exact hclear c' h
    · rw [List.mem_singleton.1 h, hc]
      exact handed_eq_clear hf ht hr he
  · intro c hc
    exact absurd hc List.not_mem_nil

/-- … and up to its end. -/
theorem calls_clear_of_observed (hf : (r.watched visit).FiresAtVisits (watchedStart it w))
    {turns : Nat} {p : Report (Recorded σ) (ω × List (Recorded σ)) Nat}
    (h : r.observed visit turns it w = some p) : ∀ c ∈ p.it.calls, c.signal = .clear := by
  obtain ⟨e, he, -, hpit, -, -⟩ := of_observed_eq_some h
  rw [hpit]
  obtain ⟨s, hs, ht⟩ := Loop.reaches_of_haltFrom? he
  have hclear := calls_clear hf hs
  rcases Loop.turn_eq_halt ht with ⟨-, rfl⟩ | ⟨-, e', -, rfl⟩ | ⟨hr, hn, -, -, rfl⟩
  · exact hclear
  · exact hclear
  · rw [Loop.settle, Loop.tried, Recorded.move_eq]
    intro c hc
    rcases List.mem_append.1 hc with h | h
    · exact hclear c h
    · rw [List.mem_singleton.1 h]
      exact handed_eq_clear hf hs hr hn

/-- Where a run stops at its limit or on its context, the node is as it was at the last
visit: a turn without a visit leads to neither. -/
theorem eq_lastVisit_of_stop (hf : (r.watched visit).FiresAtVisits (watchedStart it w))
    {s : Stand (Recorded σ) (ω × List (Recorded σ))}
    (hs : (r.watched visit).Reaches (watchedStart it w) s)
    (hstop : (r.watched visit).options.reached s.count = true ∨
      ((r.watched visit).seen s).error? ≠ none) :
    s.it = lastVisit (.of it) s.world.2 := by
  rcases Relation.ReflTransGen.cases_tail hs with rfl | ⟨t, ht, hturn⟩
  · rfl
  · obtain ⟨hr, he, -⟩ := Loop.turn_eq_go hturn
    rcases watched_turn_eq_go hturn with ⟨c, -, -, ⟨-, -, hn⟩ | ⟨-, -, hn, -⟩⟩
    · exact (lastVisit_of_counted hturn (by omega) _).1
    · have hseen := (hf t ht hr).2 s hturn hn
      rcases hstop with hreached | hfired
      · rw [hn, hr] at hreached
        cases hreached
      · rw [hseen] at hfired
        exact absurd he hfired

/-- A run that reaches a stand whose turn ends it leaves that end behind. -/
theorem exists_observed {s : Stand (Recorded σ) (ω × List (Recorded σ))}
    (hs : (r.watched visit).Reaches (watchedStart it w) s)
    {h : Halt (Recorded σ) (ω × List (Recorded σ))} (ht : (r.watched visit).turn s = .halt h) :
    ∃ turns, r.observed visit turns it w = some (Report.ofHalt (Operator.uid it) h) := by
  obtain ⟨turns, hh⟩ := Loop.exists_haltFrom?_iff.2 ⟨s, hs, ht⟩
  exact ⟨turns, by rw [observed_eq, hh]; rfl⟩

/-- **Cancellation is exact.**  Let the context of a run be fired before the run or at its
visits only.  Then no call of the run is made under a fired context; and if the context
is fired when so many results have been visited, then

* below the limit the run ends there with the error of the context, whatever the node
  reports, and leaves the node as the last visit found it;
* at the limit it ends as it would have ended otherwise. -/
theorem fired_context_ends_run (r : Run ω) (c : Context) (board : ω → Switchboard)
    (now : ω → Instant) (hlook : ∀ w, (r.look w).1 = c.signal (board w) (now w))
    (visit : σ → ω → ω) (it : σ) (w : ω)
    (hfires : (r.loop visit).FiresAtVisits (.start it w)) :
    (∀ turns p, r.observed visit turns it w = some p →
      ∀ call ∈ p.it.calls, call.signal = .clear) ∧
    ∀ s, (r.watched visit).Reaches (watchedStart it w) s →
      (∀ call ∈ s.it.calls, call.signal = .clear) ∧
      ((c.signal (board s.world.1) (now s.world.1)).fired = true →
        (r.options.reached s.count = false →
          ∃ turns p, r.observed visit turns it w = some p ∧
            p.outcome = .error
              (if (board s.world.1).isCancelled c.token then .cancelled else .deadlineExceeded) ∧
            p.world.2 = s.world.2 ∧ p.world.2.length = s.count ∧
            p.it = lastVisit (.of it) p.world.2) ∧
        (∀ k, r.options.limit = some k → k ≤ s.count →
          ∃ turns p, r.observed visit turns it w = some p ∧
            p.outcome = (match Operator.err p.it.node with
              | some e => .error e
              | none => .ok k) ∧
            p.world.2 = s.world.2 ∧ p.world.2.length = k ∧
            p.it = lastVisit (.of it) p.world.2)) := by
  have hf : (r.watched visit).FiresAtVisits (watchedStart it w) :=
    (r.watches visit).firesAtVisits hfires
  refine ⟨fun turns p h => calls_clear_of_observed hf h,
    fun s hs => ⟨calls_clear hf hs, fun hfired => ⟨fun hr => ?_, ?_⟩⟩⟩
  · have he : ((r.watched visit).seen s).error? = some
        (if (board s.world.1).isCancelled c.token then .cancelled else .deadlineExceeded) := by
      rw [← Context.error?_of_fired hfired, ← hlook]
      rfl
    obtain ⟨turns, h⟩ := exists_observed hs (Loop.turn_of_fired hr he)
    refine ⟨turns, _, h, by rw [ofHalt_outcome], by rw [ofHalt_world]; rfl, ?_, ?_⟩
    · rw [ofHalt_world]
      exact (kept_of_reaches hs).length
    · rw [ofHalt_it, ofHalt_world]
      exact eq_lastVisit_of_stop hf hs (Or.inr (by rw [he]; simp))
  · intro k hk hle
    have hcount : s.count = k := Nat.le_antisymm (Loop.Reaches.count_le hk hs) hle
    have hr : (r.watched visit).options.reached s.count = true := by
      rw [show (r.watched visit).options = r.options from rfl, RunOptions.reached, hk]
      simpa using hle
    obtain ⟨turns, h⟩ := exists_observed hs (Loop.turn_of_reached hr)
    refine ⟨turns, _, h, ?_, by rw [ofHalt_world]; rfl, ?_, ?_⟩
    · rw [ofHalt_outcome, ofHalt_it, ← hcount]
      rfl
    · rw [ofHalt_world, ← hcount]
      exact (kept_of_reaches hs).length
    · rw [ofHalt_it, ofHalt_world]
      exact eq_lastVisit_of_stop hf hs (Or.inl hr)

/-- A run in a world of flags, under a context that observes the first of them. -/
def observingFlag (limit : Option Nat) : Run Switchboard :=
  ⟨⟨limit, false⟩, fun b => ((Context.ofToken ⟨0⟩).signal b 0, b)⟩

/-- Two rows. -/
def twoRows : BasicPlan Ref := .fixed ⟨0⟩ (.ofValues [⟨[1]⟩, ⟨[2]⟩])

/-- If the first visit raises the flag, the run is cancelled there, unless it was to end there. -/
theorem fired_context_ends_run_observingFlag :
    (∃ turns p, (observingFlag none).observed (fun _ b => b.cancel ⟨0⟩) turns
        (Cursor.start twoRows) ⟨[false]⟩ = some p ∧
      p.outcome = .error .cancelled ∧ p.world.2.length = 1) ∧
    ∃ turns p, (observingFlag (some 1)).observed (fun _ b => b.cancel ⟨0⟩) turns
        (Cursor.start twoRows) ⟨[false]⟩ = some p ∧
      p.outcome = (match Operator.err p.it.node with
        | some e => .error e
        | none => .ok 1) ∧ p.world.2.length = 1 := by
  have hends (limit : Option Nat) := (fired_context_ends_run (observingFlag limit)
    (.ofToken ⟨0⟩) id (fun _ => 0) (fun _ => rfl) (fun _ b => b.cancel ⟨0⟩)
    (Cursor.start twoRows) ⟨[false]⟩ (Loop.firesAtVisits_of_look (fun _ => rfl) _)).2
  constructor
  · obtain ⟨-, hfired⟩ := hends none _ (Relation.ReflTransGen.single rfl)
    obtain ⟨hbelow, -⟩ := hfired rfl
    obtain ⟨turns, p, hp, hout, -, hlen, -⟩ := hbelow rfl
    exact ⟨turns, p, hp, hout, hlen⟩
  · obtain ⟨-, hfired⟩ := hends (some 1) _ (Relation.ReflTransGen.single rfl)
    obtain ⟨-, hreached⟩ := hfired rfl
    obtain ⟨turns, p, hp, hout, -, hlen, -⟩ := hreached 1 rfl (Nat.le_refl 1)
    exact ⟨turns, p, hp, hout, hlen⟩

end Run

end QueryPlan
