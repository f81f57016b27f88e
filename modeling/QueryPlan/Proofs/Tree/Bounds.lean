import QueryPlan.Proofs.Tree.AnyContext

/-!
# How much a run asks of a tree

The rows at the end of the chain of first children that are still unread bound everything that
is done with a tree: every round of an intersection's search but the last takes one of them away,
at whatever level, and so does every step of a run that succeeds; and what a path step takes is
one of the ways to the row that was read last.

* `Cursor.unread` — the rows that are still to be read.
* `Cursor.exists_search_answer` — the search of an intersection ends within one round more than
  there are such rows.
* `Run.Within`, `Run.within_of_turn` — the calls made so far and those that are still possible.
* `Run.calls_are_bounded` — **every run ends, within a bound.**
-/

namespace QueryPlan

namespace Cursor

variable {α : Type}

/-- The rows of the leaf at the end of the chain of first children that are still to be read. -/
def unread : {p : BasicPlan α} → Cursor p → List (Row α)
  | .fixed _ leaf, .fixed c => leaf.rows.drop c.index
  | .probe _ _ _, .probe _ c _ => unread c
  | _, _ => []

/-- The pending rows are those that are still to be read. -/
theorem pending_eq {p : BasicPlan α} (c : Cursor p) : pending c = (unread c).map Row.paths := by
  induction p using BasicPlan.induct with
  | null uid =>
    cases c
    rfl
  | error uid e =>
    cases c
    rfl
  | fixed uid leaf =>
    cases c
    rfl
  | probe uid p os ih _ =>
    cases c with
    | probe e c cs => exact ih c

theorem length_pending {p : BasicPlan α} (c : Cursor p) :
    (pending c).length = (unread c).length := by
  rw [pending_eq, List.length_map]

variable [Item α] {p : BasicPlan α}

/-! ## The search of an intersection -/

/-- A search that has ended has the same answer with more rounds. -/
theorem search_mono {os : List (BasicPlan α)} {step : Cursor p → Bool × Cursor p} {s : Signal}
    {answer : Bool × Option QueryError × Cursor p × Cursors os} :
    ∀ {m n : Nat} {c : Cursor p} {cs : Cursors os}, m ≤ n →
      search step s m c cs = some answer → search step s n c cs = some answer := by
  intro m
  induction m with
  | zero =>
    intro n c cs _ h
    cases h
  | succ m ih =>
    intro n c cs hle h
    obtain ⟨n, rfl⟩ : ∃ k, n = k + 1 := ⟨n - 1, by omega⟩
    have hle' : m ≤ n := by omega
    rw [search_succ] at h ⊢
    rcases hstep : step c with ⟨_ | _, c₁⟩
    · rw [hstep] at h
      exact h
    · rw [hstep] at h
      dsimp only at h ⊢
      cases hx : result c₁ with
      | none =>
        rw [hx] at h
        exact ih hle' h
      | some x =>
        rw [hx] at h
        dsimp only at h ⊢
        rcases htest : containsAll s x cs with ⟨_ | _, cs₁⟩
        · rw [htest] at h
          dsimp only at h ⊢
          cases he : firstErr cs₁ with
          | none =>
            rw [he] at h
            exact ih hle' h
          | some e =>
            rw [he] at h
            exact h
        · rw [htest] at h
          exact h

/-- **The search of an intersection ends within one round more than there are unread rows**,
whatever its first child is shown in each round. -/
theorem exists_search_answer {os : List (BasicPlan α)} (look : Cursor p → Signal) (s : Signal)
    (c : Cursor p) (cs : Cursors os) :
    ∃ answer, ∀ rounds, (unread c).length < rounds →
      search (fun c => next (look c) c) s rounds c cs = some answer := by
  obtain ⟨yes, e, c', cs', hsearch⟩ : ∃ yes e c' cs',
      search (fun c => next (look c) c) s ((pending c).length + 1) c cs =
        some (yes, e, c', cs') :=
    exists_search (fun _ _ => length_pending_next) (Nat.lt_succ_self _)
  refine ⟨_, fun rounds hlt => search_mono ?_ hsearch⟩
  rw [length_pending]
  exact hlt

/-- A step of an intersection is such a search. -/
theorem next_of_search {uid : Uid} {os : List (BasicPlan α)} {c c' : Cursor p} {cs cs' : Cursors os}
    {yes : Bool} {e : Option QueryError}
    (h : search (next .clear) .clear ((unread c).length + 1) c cs = some (yes, e, c', cs')) :
    next .clear (.probe none c cs : Cursor (.probe uid p os)) = (yes, .probe e c' cs') := by
  rw [next_probe_clear, length_pending, h]

/-- A step of an intersection that was stopped before, or is stopped now, ends at once. -/
theorem next_probe_stopped {uid : Uid} {os : List (BasicPlan α)} {e₀ : Option QueryError}
    {s : Signal} {e : QueryError} (he : e₀.or s.error? = some e) (c : Cursor p)
    (cs : Cursors os) :
    next s (.probe e₀ c cs : Cursor (.probe uid p os)) = (false, .probe (some e) c cs) := by
  cases e₀ with
  | none => exact next_probe_fired he c cs
  | some e₀ =>
    obtain rfl : e₀ = e := Option.some.inj he
    exact next_probe_some e₀ s

end Cursor

/-! ## The calls of a run -/

/-- How many calls there were to move this cursor. -/
def Recorded.callsOf {σ : Type} (phase : Phase) (n : Recorded σ) : Nat :=
  n.calls.countP fun call => call.cursor = phase

/-- A call is a call of its cursor. -/
theorem Recorded.callsOf_after {σ : Type} (phase : Phase) (n : Recorded σ) (cursor : Phase)
    (s : Signal) (answer : Bool × σ) :
    (n.after cursor s answer).2.callsOf phase =
      n.callsOf phase + if cursor = phase then 1 else 0 := by
  unfold callsOf after
  rw [List.countP_append, List.countP_singleton]
  simp

namespace Run

variable {α ω : Type} [Item α] {p : BasicPlan α} {r : Run ω} {visit : Cursor p → ω → ω}

/-- The calls made so far and those that the rows still allow are no more than the rows allowed
at the start. -/
structure Within (c : Cursor p)
    (s : Stand (Recorded (Cursor p)) (ω × List (Recorded (Cursor p)))) : Prop where
  /-- The steps. -/
  steps : s.it.callsOf .results + (Cursor.pending s.it.node).length ≤ (Cursor.pending c).length
  /-- The path steps. -/
  paths : s.it.callsOf .paths + Cursor.pathsLeft s.phase s.it.node ≤
    pathsOf (Cursor.pending c)

omit [Item α] in
theorem within_start (c : Cursor p) (w : ω) : Within c (watchedStart c w) where
  steps := Nat.le_of_eq (Nat.zero_add _)
  paths := Nat.le_of_eq (Nat.zero_add _)

/-- **A turn that goes on keeps the calls within their bounds.** -/
theorem within_of_turn {c : Cursor p}
    {s s' : Stand (Recorded (Cursor p)) (ω × List (Recorded (Cursor p)))} (hs : Within c s)
    (ht : (r.watched visit).turn s = .go s') : Within c s' := by
  obtain ⟨phase, it, w, n⟩ := s
  obtain ⟨hsteps, hpaths⟩ := hs
  obtain ⟨-, -, h⟩ := Loop.turn_eq_go ht
  rw [Loop.tried, Recorded.move_eq] at h
  dsimp only at h hsteps hpaths
  generalize (r.watched visit).handed ⟨phase, it, w, n⟩ = sig at h
  rcases hm : Operator.move phase sig it.node with ⟨yes, c'⟩
  rw [hm] at h
  cases phase with
  | results =>
    rcases h with ⟨rfl, rfl⟩ | ⟨-, hphase, -⟩
    · have hless : (Cursor.pending c').length < (Cursor.pending it.node).length :=
        Cursor.length_pending_next hm
      have hleft := Cursor.pathsLeft_next hm ((r.watched visit).phaseAfter .results)
      constructor
      · show (it.after .results sig (true, c')).2.callsOf .results +
          (Cursor.pending c').length ≤ _
        rw [Recorded.callsOf_after, if_pos rfl]
        omega
      · show (it.after .results sig (true, c')).2.callsOf .paths +
          Cursor.pathsLeft ((r.watched visit).phaseAfter .results) c' ≤ _
        rw [Recorded.callsOf_after, if_neg (by decide)]
        omega
    · cases hphase
  | paths =>
    have hpending : Cursor.pending c' = Cursor.pending it.node := by
      have := (Cursor.nextPath_passes sig it.node).1
      rwa [show Cursor.nextPath sig it.node = (yes, c') from hm] at this
    have hleft := Cursor.pathsLeft_nextPath hm
    have hit : s'.it = (it.after .paths sig (yes, c')).2 := by
      rcases h with ⟨-, rfl⟩ | ⟨-, -, rfl⟩ <;> rfl
    have hphase : s'.phase = if yes then .paths else .results := by
      rcases h with ⟨rfl, rfl⟩ | ⟨rfl, -, rfl⟩ <;> rfl
    constructor
    · rw [hit, Recorded.callsOf_after, if_neg (by decide)]
      show _ + (Cursor.pending c').length ≤ _
      rw [hpending]
      omega
    · rw [hphase, hit, Recorded.callsOf_after, if_pos rfl]
      show _ + Cursor.pathsLeft (if yes = true then .paths else .results) c' ≤ _
      omega

/-- The turn that ends a run makes one step at most and no path step. -/
theorem calls_of_halt {c : Cursor p}
    {s : Stand (Recorded (Cursor p)) (ω × List (Recorded (Cursor p)))} (hs : Within c s)
    {h : Halt (Recorded (Cursor p)) (ω × List (Recorded (Cursor p)))}
    (ht : (r.watched visit).turn s = .halt h) :
    h.it.callsOf .results ≤ (Cursor.pending c).length + 1 ∧
      h.it.callsOf .paths ≤ pathsOf (Cursor.pending c) := by
  obtain ⟨hsteps, hpaths⟩ := hs
  rcases Loop.turn_eq_halt ht with ⟨-, rfl⟩ | ⟨-, e, -, rfl⟩ | ⟨-, -, -, hphase, rfl⟩
  · show s.it.callsOf .results ≤ _ ∧ s.it.callsOf .paths ≤ _
    omega
  · show s.it.callsOf .results ≤ _ ∧ s.it.callsOf .paths ≤ _
    omega
  · rw [Loop.settle, Loop.tried, Recorded.move_eq, hphase]
    dsimp only
    rw [Recorded.callsOf_after, Recorded.callsOf_after, if_pos rfl, if_neg (by decide)]
    omega

/-- **Every run ends, within a bound.**  Wherever the cursors of a tree stand and whatever the
contexts show, let so many rows of the leaf at the end of the chain of first children be unread.

* The search of an intersection with this tree as its first child ends within one round more than
  there are such rows, whatever the tree is shown in each of them.  A step of the intersection is
  such a search, or ends at once if an error stopped it before or the context has fired.
* Every run over the tree ends.  It makes at most one step more than there are such rows, and as
  many path steps at most as the rows have witnesses, a row without any counting as one. -/
theorem calls_are_bounded (c : Cursor p) :
    (∀ {os : List (BasicPlan α)} (cs : Cursors os),
      (∀ (look : Cursor p → Signal) (s : Signal), ∃ answer, ∀ rounds,
        (Cursor.unread c).length + 1 ≤ rounds →
          Cursor.search (fun c => Cursor.next (look c) c) s rounds c cs = some answer) ∧
      ∀ uid : Uid,
        (∀ yes e c' cs',
          Cursor.search (Cursor.next .clear) .clear ((Cursor.unread c).length + 1) c cs =
            some (yes, e, c', cs') →
          Cursor.next .clear (.probe none c cs : Cursor (.probe uid p os)) =
            (yes, .probe e c' cs')) ∧
        ∀ e₀ s e, e₀.or s.error? = some e →
          Cursor.next s (.probe e₀ c cs : Cursor (.probe uid p os)) =
            (false, .probe (some e) c cs)) ∧
    ∀ {ω : Type} (r : Run ω) (visit : Cursor p → ω → ω) (w : ω) {turns : Nat},
      turnsFor c ≤ turns →
      ∃ rep, r.observed visit turns c w = some rep ∧
        rep.it.callsOf .results ≤ (Cursor.unread c).length + 1 ∧
        rep.it.callsOf .paths ≤
          pathsOf ((Cursor.unread c).map fun row => max 1 row.witnesses.length) := by
  refine ⟨fun cs => ⟨fun look s => Cursor.exists_search_answer look s c cs, fun uid => ⟨?_, ?_⟩⟩,
    fun r visit w turns hturns => ?_⟩
  · exact fun yes e c' cs' h => Cursor.next_of_search h
  · exact fun e₀ s e he => Cursor.next_probe_stopped he c cs
  · obtain ⟨h, hh⟩ := exists_halt_watched r visit c w hturns
    obtain ⟨s, hs, ht⟩ := Loop.reaches_of_haltFrom? hh
    have hwithin : Within c s :=
      hs.invariant (P := Within c) (fun _ _ _ h hgo => within_of_turn h hgo) (within_start c w)
    obtain ⟨hsteps, hpaths⟩ := calls_of_halt hwithin ht
    rw [Cursor.length_pending] at hsteps
    rw [Cursor.pending_eq] at hpaths
    refine ⟨Report.ofHalt (Operator.uid c) h, by rw [observed_eq, hh]; rfl, ?_, ?_⟩
    · rw [ofHalt_it]
      exact hsteps
    · rw [ofHalt_it]
      exact hpaths

/-- Two unread rows, one of them without witnesses and one with three: the search of an
intersection ends in three rounds, and a run takes three steps and four path steps at most. -/
theorem calls_are_bounded_threeWays :
    (∃ answer, Cursor.search (Cursor.next .clear) .clear 3 (Cursor.start threeWays)
      (Cursors.nil : Cursors ([] : List (BasicPlan Ref))) = some answer) ∧
    Cursor.next .cancelled (.probe none (Cursor.start threeWays) .nil :
      Cursor (.probe ⟨3⟩ threeWays [])) =
        (false, .probe (some .cancelled) (Cursor.start threeWays) .nil) ∧
    turnsFor (Cursor.start threeWays) ≤ 8 ∧
    ∃ rep, (Run.mk ⟨none, true⟩ fun w : Unit => (.clear, w)).observed (fun _ w => w) 8
        (Cursor.start threeWays) () = some rep ∧
      rep.it.callsOf .results ≤ 3 ∧ rep.it.callsOf .paths ≤ 4 := by
  obtain ⟨hsearch, hrun⟩ := calls_are_bounded (Cursor.start threeWays)
  obtain ⟨hends, hstep⟩ := hsearch .nil
  obtain ⟨answer, hrounds⟩ := hends (fun _ => .clear) .clear
  obtain ⟨-, hfired⟩ := hstep ⟨3⟩
  have hturns : turnsFor (Cursor.start threeWays) ≤ 8 := by decide
  exact ⟨⟨answer, hrounds 3 (by decide)⟩, hfired none .cancelled .cancelled rfl, hturns,
    hrun (Run.mk ⟨none, true⟩ fun w : Unit => (.clear, w)) (fun _ w => w) () hturns⟩

end Run

end QueryPlan
