import QueryPlan.Plan.Tree.Moves
import QueryPlan.Proofs.Run.Watching

/-!
# What a limit does to a run

A limit is looked at before every move, so a run with a limit takes the turns of the
run without one until the limit is reached, and stops there.

* `Loop.turn_limited` — below the limit both runs take the same turn.
* `Loop.haltFrom?_limited` — so either both runs come to the same end, or the run with
  the limit stops at a stand that the other one goes through.
* `Run.limit_only_cuts` — in terms of visits and calls: **a limit only cuts**.
-/

namespace QueryPlan

namespace Loop

variable {σ α ω : Type} [Operator σ α]

/-- The loop with a limit. -/
def limited (l : Loop σ ω) (k : Nat) : Loop σ ω := { l with options := l.options.withLimit k }

theorem reached_limited (l : Loop σ ω) (k n : Nat) :
    (l.limited k).options.reached n = decide (k ≤ n) := rfl

theorem reached_of_limit_eq_none {c : RunOptions} (hc : c.limit = none) (n : Nat) :
    c.reached n = false := by
  rw [RunOptions.reached, hc]

/-- Below the limit a run takes the same turn with it and without it. -/
theorem turn_limited {l : Loop σ ω} (hl : l.options.limit = none) {k : Nat} {s : Stand σ ω}
    (hs : s.count < k) : (l.limited k).turn s = l.turn s := by
  have hr : (l.limited k).options.reached s.count = l.options.reached s.count := by
    rw [reached_limited, reached_of_limit_eq_none hl]
    simpa using hs
  rw [turn, turn, hr]
  rfl

/-- **A run with a limit is a run without one, up to the limit.**  If the run without a
limit ends below it, the run with the limit comes to the same end; otherwise it stops at
the stand at which the other run has just counted its `k`-th result, and that run goes
on from there. -/
theorem haltFrom?_limited {l : Loop σ ω} (hl : l.options.limit = none) (k : Nat) {h : Halt σ ω} :
    ∀ {turns : Nat} {s : Stand σ ω}, s.count ≤ k → l.haltFrom? turns s = some h →
      h.count < k ∧ (l.limited k).haltFrom? turns s = some h ∨
      ∃ s', l.Reaches s s' ∧ s'.count = k ∧
        (s' = s ∨ ∃ t, l.turn t = .go s' ∧ t.count < s'.count) ∧
        (∃ turns, l.haltFrom? turns s' = some h) ∧
        (l.limited k).haltFrom? turns s = some (settle s'.it s'.world s'.count) := by
  intro turns
  induction turns with
  | zero => intro s _ hh; simp at hh
  | succ n ih =>
    intro s hs hh
    rcases Nat.lt_or_ge s.count k with hlt | hge
    · rw [haltFrom?_succ, turn_limited hl hlt]
      rw [haltFrom?_succ] at hh
      cases ht : l.turn s with
      | halt e =>
        rw [ht] at hh
        cases hh
        exact Or.inl ⟨by rw [count_of_turn_eq_halt ht]; exact hlt, rfl⟩
      | go s₁ =>
        rw [ht] at hh
        have hc : s₁.count ≤ k := by
          have := count_of_turn_eq_go ht
          omega
        rcases ih hc hh with hbelow | ⟨s', hs', hk, hvisit, hmore, hcut⟩
        · exact Or.inl hbelow
        · refine Or.inr ⟨s', hs'.head ht, hk, Or.inr ?_, hmore, hcut⟩
          rcases hvisit with rfl | hvisit
          · exact ⟨s, ht, by omega⟩
          · exact hvisit
    · have hk : s.count = k := by omega
      have hr : (l.limited k).options.reached s.count = true := by
        rw [reached_limited]
        simpa using hge
      refine Or.inr ⟨s, .refl, hk, Or.inl rfl, ⟨n + 1, hh⟩, ?_⟩
      rw [haltFrom?_succ, turn_of_reached hr]

end Loop

namespace Run

variable {σ α ω : Type} [Operator σ α]

theorem watched_withLimit (r : Run ω) (k : Nat) (visit : σ → ω → ω) :
    (r.withLimit k).watched visit = (r.watched visit).limited k := rfl

/-- **A limit only cuts.**  If the run without a limit ends, the run with the limit `k`
ends too.  It visits the first `k` of the other run's results and makes a beginning of
its calls; if there are `k` results it makes no call behind the one that moved to the
last of them, and leaves the node as that visit found it; and if there are fewer, the
two runs leave the same behind. -/
theorem limit_only_cuts (r : Run ω) (hlim : r.options.limit = none) (k : Nat)
    (visit : σ → ω → ω) (it : σ) (w : ω) {turns : Nat}
    {p : Report (Recorded σ) (ω × List (Recorded σ)) Nat}
    (h : r.observed visit turns it w = some p) :
    ∃ p', (r.withLimit k).observed visit turns it w = some p' ∧
      p'.world.2 = p.world.2.take k ∧
      p'.it.calls <+: p.it.calls ∧
      (k ≤ p.world.2.length →
        p'.it = lastVisit (.of it) p'.world.2 ∧
        p'.it.calls.countP Call.moved = k ∧
        ∀ c ∈ p'.it.calls.getLast?, c.moved = true) ∧
      (p.world.2.length < k → p' = p) := by
  obtain ⟨e, he, hp, hpit, hpw, hlen⟩ := of_observed_eq_some h
  have hlim' : (r.watched visit).options.limit = none := hlim
  rw [observed_eq, watched_withLimit]
  rcases Loop.haltFrom?_limited hlim' k (Nat.zero_le k) he with
    ⟨hbelow, hsame⟩ | ⟨s, hs, hk, hvisit, ⟨m, hmore⟩, hcut⟩
  · refine ⟨p, by rw [hsame, hp]; rfl, ?_, List.prefix_rfl, ?_, fun _ => rfl⟩
    · rw [hpw, List.take_of_length_le (by omega)]
    · intro hle
      rw [hpw] at hle
      omega
  · have hkept := kept_of_reaches hs
    obtain ⟨hv, hc⟩ := records_grow_to_halt hmore
    have hle : k ≤ e.world.2.length := by
      rw [← hk, ← hkept.length]
      exact hv.length_le
    refine ⟨_, by rw [hcut]; rfl, ?_, ?_, fun _ => ?_, ?_⟩
    · rw [ofHalt_world, hpw, ← hk, ← hkept.length]
      exact (List.prefix_iff_eq_take.1 hv)
    · rw [ofHalt_it, hpit]
      exact hc
    · rw [ofHalt_it, ofHalt_world]
      have hlast : s.it = lastVisit (.of it) s.world.2 ∧
          ∀ c ∈ s.it.calls.getLast?, c.moved = true := by
        rcases hvisit with rfl | ⟨t, ht, htc⟩
        · exact ⟨rfl, by simp [watchedStart, Stand.start, Recorded.of]⟩
        · exact lastVisit_of_counted ht htc _
      exact ⟨hlast.1, hkept.moved.trans hk, hlast.2⟩
    · intro hlt
      rw [hpw] at hlt
      omega

/-- Three rows. -/
def threeRows : BasicPlan Ref := .fixed ⟨0⟩ (.ofValues [⟨[1]⟩, ⟨[2]⟩, ⟨[3]⟩])

/-- A run in a world that counts its visits and cancels the run at the second one. -/
def cancelledAtTwo : Run Nat := .new fun n => (if 2 ≤ n then .cancelled else .clear, n)

/-- With a limit of two, the visit that cancels the run is the one that ends it. -/
theorem limit_only_cuts_cancelledAtTwo :
    ∃ p p', cancelledAtTwo.observed (fun _ n => n + 1) 8 (Cursor.start threeRows) 0 = some p ∧
      (cancelledAtTwo.withLimit 2).observed (fun _ n => n + 1) 8 (Cursor.start threeRows) 0 =
        some p' ∧
      p.outcome = .error .cancelled ∧ p.world.2.length = 2 ∧
      p'.world.2 = p.world.2.take 2 ∧ p'.it.calls.countP Call.moved = 2 := by
  obtain ⟨p, hp⟩ : ∃ p,
      cancelledAtTwo.observed (fun _ n => n + 1) 8 (Cursor.start threeRows) 0 = some p := ⟨_, rfl⟩
  have hout : p.outcome = .error .cancelled ∧ p.world.2.length = 2 := by
    cases hp
    exact ⟨rfl, rfl⟩
  obtain ⟨p', hp', hv, -, hk, -⟩ := limit_only_cuts cancelledAtTwo rfl 2 _ _ _ hp
  obtain ⟨-, hmoved, -⟩ := hk (Nat.le_of_eq hout.2.symm)
  exact ⟨p, p', hp, hp', hout.1, hout.2, hv, hmoved⟩

end Run

end QueryPlan
