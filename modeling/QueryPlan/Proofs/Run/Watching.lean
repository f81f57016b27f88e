import Mathlib.Data.List.Basic
import QueryPlan.Proofs.Run.Turns

/-!
# Watching a run

What a run does to its node and to its visitor is not part of its answer.  To state it,
the node is put into a `Recorded` node, which behaves alike and keeps a record of the
calls that move it, and the visitor lists every node it is shown, record included
(`Run.watched`).  The watched run is the run itself: forgetting the records gives it
back (`Run.visiting_eq_observed`).

* `Watches.turn_map`, `Watches.haltFrom?_map` — a loop that only writes down what
  another one does takes its turns and comes to its end.
* `watched_turn_eq_go`, `watched_turn_eq_halt` — what a turn adds to the records.
* `Kept` — there is one entry for each visit and one successful call for each visit.
* `gathered_eq_foldl` — what a run gathers; what `all` gathers are the results of the nodes
  visited (`gathered_of_observed`).
-/

namespace QueryPlan

/-! ## Loops that watch other loops -/

section Map

variable {σ α ω σ' α' ω' : Type}

/-- The same stand, seen through what is forgotten of node and world. -/
def Stand.map (f : σ' → σ) (g : ω' → ω) (s : Stand σ' ω') : Stand σ ω :=
  ⟨s.phase, f s.it, g s.world, s.count⟩

/-- The same end of a run, seen through what is forgotten of node and world. -/
def Halt.map (f : σ' → σ) (g : ω' → ω) (h : Halt σ' ω') : Halt σ ω :=
  ⟨f h.it, g h.world, h.count, h.err⟩

/-- The same turn, seen through what is forgotten of node and world. -/
def Turn.map (f : σ' → σ) (g : ω' → ω) : Turn σ' ω' → Turn σ ω
  | .halt h => .halt (h.map f g)
  | .go s => .go (s.map f g)

/-- The same report, seen through what is forgotten of node and world. -/
def Report.map {β : Type} (f : σ' → σ) (g : ω' → ω) (p : Report σ' ω' β) : Report σ ω β :=
  ⟨f p.it, g p.world, p.outcome, p.event⟩

variable [Operator σ α] [Operator σ' α']

/-- The loop `l'` does what `l` does, and `f` and `g` forget what it writes down besides. -/
structure Watches (l' : Loop σ' ω') (l : Loop σ ω) (f : σ' → σ) (g : ω' → ω) : Prop where
  /-- Both loops have the same options. -/
  options : l'.options = l.options
  /-- A look shows the same in both. -/
  look : ∀ w, l.look (g w) = ((l'.look w).1, g (l'.look w).2)
  /-- A visit does the same in both. -/
  visit : ∀ it w, l.visit (f it) (g w) = g (l'.visit it w)
  /-- Both nodes give the same answers. -/
  move : ∀ phase s it, Operator.move phase s (f it) =
    ((Operator.move phase s it).1, f (Operator.move phase s it).2)
  /-- Both nodes report the same error. -/
  err : ∀ it, Operator.err (f it) = Operator.err it

namespace Watches

variable {l' : Loop σ' ω'} {l : Loop σ ω} {f : σ' → σ} {g : ω' → ω}

theorem seen_map (hw : Watches l' l f g) (s : Stand σ' ω') : l.seen (s.map f g) = l'.seen s := by
  simp [Loop.seen, Stand.map, hw.look]

theorem handed_map (hw : Watches l' l f g) (s : Stand σ' ω') :
    l.handed (s.map f g) = l'.handed s := by
  simp [Loop.handed, Stand.map, hw.look]

theorem outside_map (hw : Watches l' l f g) (s : Stand σ' ω') :
    l.outside (s.map f g) = g (l'.outside s) := by
  simp [Loop.outside, Stand.map, hw.look]

theorem tried_map (hw : Watches l' l f g) (s : Stand σ' ω') :
    l.tried (s.map f g) = ((l'.tried s).1, f (l'.tried s).2) := by
  rw [Loop.tried, hw.handed_map, Loop.tried]
  exact hw.move _ _ _

theorem visited_map (hw : Watches l' l f g) (s : Stand σ' ω') (it : σ') :
    l.visited (s.map f g) (f it) = (l'.visited s it).map f g := by
  have hp : l.phaseAfter s.phase = l'.phaseAfter s.phase := by
    cases hs : s.phase with
    | results => simp [Loop.phaseAfter, Loop.afterResult, hw.options]
    | paths => rfl
  have hv := hw.visit it (l'.outside s)
  rw [← hw.outside_map] at hv
  simp only [Loop.visited, Stand.map] at hv ⊢
  rw [hp, hv]

theorem turnedBack_map (hw : Watches l' l f g) (s : Stand σ' ω') (it : σ') :
    l.turnedBack (s.map f g) (f it) = (l'.turnedBack s it).map f g := by
  have ho := hw.outside_map s
  simp only [Loop.turnedBack, Stand.map] at ho ⊢
  rw [ho]

theorem settle_map (hw : Watches l' l f g) (it : σ') (w : ω') (n : Nat) :
    (Loop.settle it w n : Halt σ' ω').map f g = Loop.settle (f it) (g w) n := by
  simp [Loop.settle, Halt.map, hw.err]

/-- **A watched turn is the turn.** -/
theorem turn_map (hw : Watches l' l f g) (s : Stand σ' ω') :
    l.turn (s.map f g) = (l'.turn s).map f g := by
  have hc : (s.map f g).count = s.count := rfl
  cases hr : l'.options.reached s.count with
  | true =>
    rw [Loop.turn_of_reached hr, Loop.turn_of_reached (by rw [← hw.options, hc, hr]),
      Turn.map, hw.settle_map]
    rfl
  | false =>
    have hr' : l.options.reached (s.map f g).count = false := by rw [← hw.options, hc, hr]
    cases he : (l'.seen s).error? with
    | some e =>
      have he' : (l.seen (s.map f g)).error? = some e := by rw [hw.seen_map, he]
      rw [Loop.turn_of_fired hr he, Loop.turn_of_fired hr' he']
      simp [Turn.map, Halt.map, Stand.map, hw.look]
    | none =>
      have he' : (l.seen (s.map f g)).error? = none := by rw [hw.seen_map, he]
      rcases ht : l'.tried s with ⟨yes, it⟩
      have ht' : l.tried (s.map f g) = (yes, f it) := by rw [hw.tried_map, ht]
      cases yes with
      | true =>
        rw [Loop.turn_of_moved hr he ht, Loop.turn_of_moved hr' he' ht', hw.visited_map]
        rfl
      | false =>
        cases hp : s.phase with
        | results =>
          rw [Loop.turn_of_over hr he ht hp, Loop.turn_of_over hr' he' ht' hp, Turn.map,
            hw.settle_map, hw.outside_map]
          rfl
        | paths =>
          rw [Loop.turn_of_back hr he ht hp, Loop.turn_of_back hr' he' ht' hp,
            hw.turnedBack_map]
          rfl

/-- **A watched run is the run.** -/
theorem haltFrom?_map (hw : Watches l' l f g) :
    ∀ (turns : Nat) (s : Stand σ' ω'),
      l.haltFrom? turns (s.map f g) = (l'.haltFrom? turns s).map (Halt.map f g) := by
  intro turns
  induction turns with
  | zero => intro s; simp
  | succ n ih =>
    intro s
    rw [Loop.haltFrom?_succ, Loop.haltFrom?_succ, hw.turn_map]
    cases l'.turn s with
    | halt h => rfl
    | go s' => exact ih s'

theorem reaches_map (hw : Watches l' l f g) {s s' : Stand σ' ω'} (h : l'.Reaches s s') :
    l.Reaches (s.map f g) (s'.map f g) := by
  induction h with
  | refl => exact .refl
  | tail _ ht ih => exact ih.tail (by rw [hw.turn_map, ht, Turn.map])

end Watches

end Map

/-! ## Nodes that record the calls made to them -/

/-- A call that moves a node's cursor, or tries to. -/
structure Call where
  /-- The cursor. -/
  cursor : Phase
  /-- What the node was handed as its context's signal. -/
  signal : Signal
  /-- Did the cursor move? -/
  moved : Bool
  deriving DecidableEq, Repr

/-- A node and the calls that were to move its cursors, in order. -/
structure Recorded (σ : Type) where
  /-- The node. -/
  node : σ
  /-- The calls. -/
  calls : List Call

namespace Recorded

variable {σ α : Type}

/-- A node to which no call was made yet. -/
def of (it : σ) : Recorded σ := ⟨it, []⟩

/-- What becomes of the node and its record when it has answered a call. -/
def after (n : Recorded σ) (cursor : Phase) (s : Signal) (answer : Bool × σ) :
    Bool × Recorded σ :=
  (answer.1, ⟨answer.2, n.calls ++ [⟨cursor, s, answer.1⟩]⟩)

instance [Operator σ α] : Operator (Recorded σ) α where
  uid n := Operator.uid n.node
  label n := Operator.label n.node
  domain n := Operator.domain n.node
  state n := Operator.state n.node
  err n := Operator.err n.node
  size n := Operator.size n.node
  stats n := Operator.stats n.node
  children n := Operator.children n.node
  result n := Operator.result n.node
  publish n dst := Operator.publish n.node dst
  next s n := n.after .results s (Operator.next s n.node)
  nextPath s n := n.after .paths s (Operator.nextPath s n.node)
  contains s x n :=
    let (yes, it) := Operator.contains s x n.node
    (yes, ⟨it, n.calls⟩)
  rewind n := ⟨Operator.rewind n.node, n.calls⟩
  close n :=
    let (r, it) := Operator.close n.node
    (r, ⟨it, n.calls⟩)
  pending n := Operator.pending n.node

theorem move_eq [Operator σ α] (phase : Phase) (s : Signal) (n : Recorded σ) :
    Operator.move phase s n = n.after phase s (Operator.move phase s n.node) := by
  cases phase <;> rfl

end Recorded

/-! ## Watched runs -/

namespace Run

variable {σ α ω : Type} [Operator σ α]

/-- The loop of a run. -/
def loop (r : Run ω) (visit : σ → ω → ω) : Loop σ ω := ⟨r.options, r.look, visit⟩

/-- Visits a node and adds it to a list, as it is at the visit. -/
def listing (visit : σ → ω → ω) (it : σ) (w : ω × List σ) : ω × List σ :=
  (visit it w.1, w.2 ++ [it])

/-- The run over a recorded node with a list of the nodes visited. -/
def watched (r : Run ω) (visit : σ → ω → ω) : Loop (Recorded σ) (ω × List (Recorded σ)) :=
  (r.gathering (List (Recorded σ))).loop (listing fun n => visit n.node)

/-- Where a watched run begins. -/
def watchedStart (it : σ) (w : ω) : Stand (Recorded σ) (ω × List (Recorded σ)) :=
  .start (.of it) (w, [])

/-- The report on a watched run. -/
def observed (r : Run ω) (visit : σ → ω → ω) (turns : Nat) (it : σ) (w : ω) :
    Option (Report (Recorded σ) (ω × List (Recorded σ)) Nat) :=
  (r.gathering (List (Recorded σ))).visiting (listing fun n => visit n.node) turns (.of it)
    (w, [])

theorem visiting_eq (r : Run ω) (visit : σ → ω → ω) (turns : Nat) (it : σ) (w : ω) :
    r.visiting visit turns it w =
      ((r.loop visit).haltFrom? turns (.start it w)).map (Report.ofHalt (Operator.uid it)) := rfl

theorem observed_eq (r : Run ω) (visit : σ → ω → ω) (turns : Nat) (it : σ) (w : ω) :
    r.observed visit turns it w =
      ((r.watched visit).haltFrom? turns (watchedStart it w)).map
        (Report.ofHalt (Operator.uid it)) := rfl

theorem watches (r : Run ω) (visit : σ → ω → ω) :
    Watches (r.watched visit) (r.loop visit) Recorded.node Prod.fst where
  options := rfl
  look _ := rfl
  visit _ _ := rfl
  move phase s n := by rw [Recorded.move_eq]; rfl
  err _ := rfl

@[simp] theorem ofHalt_it (uid : Uid) (h : Halt σ ω) : (Report.ofHalt uid h).it = h.it := by
  unfold Report.ofHalt
  split <;> rfl

@[simp] theorem ofHalt_world (uid : Uid) (h : Halt σ ω) :
    (Report.ofHalt uid h).world = h.world := by
  unfold Report.ofHalt
  split <;> rfl

theorem ofHalt_outcome (uid : Uid) (h : Halt σ ω) :
    (Report.ofHalt uid h).outcome =
      match h.err with
      | some e => .error e
      | none => .ok h.count := by
  unfold Report.ofHalt
  split <;> simp_all

theorem ofHalt_map {σ' ω' : Type} (f : σ' → σ) (g : ω' → ω) (uid : Uid) (h : Halt σ' ω') :
    (Report.ofHalt uid h).map f g = Report.ofHalt uid (h.map f g) := by
  obtain ⟨it, w, n, e⟩ := h
  cases e <;> rfl

/-- A run over a node that only writes down besides leaves the same behind, but for that. -/
theorem visiting_map {σ' α' ω' : Type} [Operator σ' α'] {r' : Run ω'} {r : Run ω}
    {visit' : σ' → ω' → ω'} {visit : σ → ω → ω} {f : σ' → σ} {g : ω' → ω}
    (hw : Watches (r'.loop visit') (r.loop visit) f g) (it : σ')
    (huid : Operator.uid (f it) = Operator.uid it) (turns : Nat) (w : ω') :
    r.visiting visit turns (f it) (g w) =
      (r'.visiting visit' turns it w).map (Report.map f g) := by
  have hm := hw.haltFrom?_map turns (.start it w)
  rw [visiting_eq, visiting_eq, show Stand.start (f it) (g w) = (Stand.start it w).map f g from rfl,
    hm, Option.map_map, Option.map_map, huid]
  refine congrArg (Option.map · _) (funext fun h => ?_)
  exact (ofHalt_map f g (Operator.uid it) h).symm

/-- **A watched run is the run**: without the records it leaves the same node, world,
answer and event behind, after as many turns. -/
theorem visiting_eq_observed (r : Run ω) (visit : σ → ω → ω) (turns : Nat) (it : σ) (w : ω) :
    r.visiting visit turns it w =
      (r.observed visit turns it w).map (Report.map Recorded.node Prod.fst) :=
  visiting_map (r.watches visit) (.of it) rfl turns (w, [])

/-- A run that leaves this behind answers that. -/
theorem visiting_of_observed {r : Run ω} {visit : σ → ω → ω} {turns : Nat} {it : σ} {w : ω}
    {rep : Report (Recorded σ) (ω × List (Recorded σ)) Nat}
    (h : r.observed visit turns it w = some rep) :
    r.visiting visit turns it w = some (rep.map Recorded.node Prod.fst) := by
  rw [visiting_eq_observed, h]
  rfl

/-! ## What the records hold -/

variable {r : Run ω} {visit : σ → ω → ω}

/-- **A turn adds one call to the record**, and a visit exactly if the call succeeded. -/
theorem watched_turn_eq_go {s s' : Stand (Recorded σ) (ω × List (Recorded σ))}
    (h : (r.watched visit).turn s = .go s') :
    ∃ c : Call, c.signal = (r.watched visit).handed s ∧ s'.it.calls = s.it.calls ++ [c] ∧
      (c.moved = true ∧ s'.world.2 = s.world.2 ++ [s'.it] ∧ s'.count = s.count + 1 ∨
        c.moved = false ∧ s'.world.2 = s.world.2 ∧ s'.count = s.count ∧ s.phase = .paths ∧
          s'.world.1 = ((r.watched visit).outside s).1) := by
  obtain ⟨-, -, h⟩ := Loop.turn_eq_go h
  rw [Loop.tried, Recorded.move_eq] at h
  refine ⟨⟨s.phase, (r.watched visit).handed s,
    (Operator.move s.phase ((r.watched visit).handed s) s.it.node).1⟩, rfl, ?_, ?_⟩
  · rcases h with ⟨-, rfl⟩ | ⟨-, -, rfl⟩ <;> rfl
  · rcases h with ⟨hm, rfl⟩ | ⟨hm, hp, rfl⟩
    · exact Or.inl ⟨hm, rfl, rfl⟩
    · exact Or.inr ⟨hm, rfl, rfl, hp, rfl⟩

/-- The turn that ends a run pays no visit, and the call it makes, if any, failed. -/
theorem watched_turn_eq_halt {s : Stand (Recorded σ) (ω × List (Recorded σ))}
    {h : Halt (Recorded σ) (ω × List (Recorded σ))} (ht : (r.watched visit).turn s = .halt h) :
    h.world.2 = s.world.2 ∧ h.count = s.count ∧
      (h.it = s.it ∨ ∃ c : Call, c.signal = (r.watched visit).handed s ∧ c.moved = false ∧
        h.it.calls = s.it.calls ++ [c] ∧ ((r.watched visit).seen s).error? = none) := by
  rcases Loop.turn_eq_halt ht with ⟨-, rfl⟩ | ⟨-, e, -, rfl⟩ | ⟨-, he, hm, -, rfl⟩
  · exact ⟨rfl, rfl, Or.inl rfl⟩
  · exact ⟨rfl, rfl, Or.inl rfl⟩
  · rw [Loop.tried, Recorded.move_eq] at hm
    refine ⟨rfl, rfl, Or.inr ⟨⟨s.phase, (r.watched visit).handed s, false⟩, rfl, rfl, ?_, he⟩⟩
    rw [Loop.tried, Recorded.move_eq, ← hm]
    rfl

/-- What the records hold at a stand of a run: as many visits as the run has counted, and
as many successful calls. -/
structure Kept (s : Stand (Recorded σ) (ω × List (Recorded σ))) : Prop where
  /-- One entry for each visit. -/
  length : s.world.2.length = s.count
  /-- One successful call for each visit. -/
  moved : s.it.calls.countP Call.moved = s.count

theorem kept_step {s s' : Stand (Recorded σ) (ω × List (Recorded σ))} (hs : Kept s)
    (h : (r.watched visit).turn s = .go s') : Kept s' := by
  obtain ⟨c, -, hc, ⟨hm, hv, hn⟩ | ⟨hm, hv, hn, -, -⟩⟩ := watched_turn_eq_go h
  · exact ⟨by rw [hv, hn, List.length_append, hs.length]; rfl,
      by rw [hc, hn, List.countP_append, hs.moved]; simp [hm]⟩
  · exact ⟨by rw [hv, hn, hs.length], by rw [hc, hn, List.countP_append, hs.moved]; simp [hm]⟩

theorem kept_of_reaches {it : σ} {w : ω} {s : Stand (Recorded σ) (ω × List (Recorded σ))}
    (h : (r.watched visit).Reaches (watchedStart it w) s) : Kept s :=
  h.invariant (P := Kept) (fun _ _ _ hk ht => kept_step hk ht) ⟨rfl, rfl⟩

/-- Records only grow. -/
theorem records_grow {s s' : Stand (Recorded σ) (ω × List (Recorded σ))}
    (h : (r.watched visit).Reaches s s') :
    s.world.2 <+: s'.world.2 ∧ s.it.calls <+: s'.it.calls := by
  refine h.invariant (P := fun t => s.world.2 <+: t.world.2 ∧ s.it.calls <+: t.it.calls) ?_
    ⟨List.prefix_rfl, List.prefix_rfl⟩
  rintro t t' - ⟨hv, hc⟩ ht
  obtain ⟨c, -, hcalls, ⟨-, hw, -⟩ | ⟨-, hw, -⟩⟩ := watched_turn_eq_go ht
  · rw [hcalls, hw]
    exact ⟨hv.trans (List.prefix_append _ _), hc.trans (List.prefix_append _ _)⟩
  · rw [hcalls, hw]
    exact ⟨hv, hc.trans (List.prefix_append _ _)⟩

theorem records_grow_to_halt {turns : Nat} {s : Stand (Recorded σ) (ω × List (Recorded σ))}
    {h : Halt (Recorded σ) (ω × List (Recorded σ))}
    (hh : (r.watched visit).haltFrom? turns s = some h) :
    s.world.2 <+: h.world.2 ∧ s.it.calls <+: h.it.calls := by
  obtain ⟨t, ht, hhalt⟩ := Loop.reaches_of_haltFrom? hh
  obtain ⟨hv, hc⟩ := records_grow ht
  obtain ⟨hw, -, hi | ⟨c, -, -, hcalls, -⟩⟩ := watched_turn_eq_halt hhalt
  · rw [hw, hi]
    exact ⟨hv, hc⟩
  · rw [hw, hcalls]
    exact ⟨hv, hc.trans (List.prefix_append _ _)⟩

/-- The node as it was at the last visit, or at the start of the run if there was none. -/
def lastVisit (it : Recorded σ) (visits : List (Recorded σ)) : Recorded σ :=
  visits.getLast?.getD it

/-- A turn that counts a result has just visited the node, and its call succeeded. -/
theorem lastVisit_of_counted {s s' : Stand (Recorded σ) (ω × List (Recorded σ))}
    (h : (r.watched visit).turn s = .go s') (hc : s.count < s'.count) (it : Recorded σ) :
    s'.it = lastVisit it s'.world.2 ∧ ∀ c ∈ s'.it.calls.getLast?, c.moved = true := by
  obtain ⟨c, -, hcalls, ⟨hm, hv, -⟩ | ⟨-, -, hn, -⟩⟩ := watched_turn_eq_go h
  · refine ⟨by rw [lastVisit, hv]; simp, ?_⟩
    rw [hcalls]
    simpa using hm
  · omega

/-- At the end, too, there is one entry for each visit. -/
theorem length_visits_of_haltFrom? {turns : Nat} {it : σ} {w : ω}
    {h : Halt (Recorded σ) (ω × List (Recorded σ))}
    (hh : (r.watched visit).haltFrom? turns (watchedStart it w) = some h) :
    h.world.2.length = h.count := by
  obtain ⟨s, hs, ht⟩ := Loop.reaches_of_haltFrom? hh
  obtain ⟨hv, hn, -⟩ := watched_turn_eq_halt ht
  rw [hv, hn, (kept_of_reaches hs).length]

/-- What a run leaves behind is what its end holds. -/
theorem of_observed_eq_some {turns : Nat} {it : σ} {w : ω}
    {p : Report (Recorded σ) (ω × List (Recorded σ)) Nat}
    (h : r.observed visit turns it w = some p) :
    ∃ e, (r.watched visit).haltFrom? turns (watchedStart it w) = some e ∧
      p = Report.ofHalt (Operator.uid it) e ∧ p.it = e.it ∧ p.world = e.world ∧
      e.world.2.length = e.count := by
  rw [observed_eq, Option.map_eq_some_iff] at h
  obtain ⟨e, he, rfl⟩ := h
  exact ⟨e, he, rfl, ofHalt_it _ e, ofHalt_world _ e, length_visits_of_haltFrom? he⟩

/-! ## What a run gathers -/

/-- What a run has gathered, if this is what a visit does to it: it was done for every node
visited, one after the other … -/
theorem gathered_of_reaches {β : Type} {visit : σ → ω × β → ω × β} {step : σ → β → β}
    (hstep : ∀ it w, (visit it w).2 = step it w.2) {it : σ} {w : ω} {b : β}
    {s : Stand (Recorded σ) ((ω × β) × List (Recorded σ))}
    (hs : ((r.gathering β).watched visit).Reaches (watchedStart it (w, b)) s) :
    s.world.1.2 = s.world.2.foldl (fun b n => step n.node b) b := by
  refine hs.invariant
    (P := fun t => t.world.1.2 = t.world.2.foldl (fun b n => step n.node b) b) ?_ rfl
  intro t t' _ hgathered ht
  obtain ⟨-, -, ⟨-, rfl⟩ | ⟨-, -, rfl⟩⟩ := Loop.turn_eq_go ht
  · generalize (((r.gathering β).watched visit).tried t).2 = n
    calc (visit n.node (((r.gathering β).watched visit).outside t).1).2
        = step n.node t.world.1.2 := hstep _ _
      _ = (t.world.2 ++ [n]).foldl (fun b n => step n.node b) b := by
        rw [List.foldl_append, hgathered]
        rfl
  · exact hgathered

/-- … and so it is at the end. -/
theorem gathered_eq_foldl {β : Type} {visit : σ → ω × β → ω × β} (step : σ → β → β)
    (hstep : ∀ it w, (visit it w).2 = step it w.2) {turns : Nat} {it : σ} {w : ω} {b : β}
    {p : Report (Recorded σ) ((ω × β) × List (Recorded σ)) Nat}
    (h : (r.gathering β).observed visit turns it (w, b) = some p) :
    p.world.1.2 = p.world.2.foldl (fun b n => step n.node b) b := by
  obtain ⟨e, he, -, -, hpw, -⟩ := of_observed_eq_some h
  rw [hpw]
  obtain ⟨s, hs, ht⟩ := Loop.reaches_of_haltFrom? he
  have hgathered := gathered_of_reaches hstep hs
  rcases Loop.turn_eq_halt ht with ⟨-, rfl⟩ | ⟨-, e, -, rfl⟩ | ⟨-, -, -, -, rfl⟩
  · exact hgathered
  · exact hgathered
  · exact hgathered

/-- What a run gathers that adds something to a list at every visit. -/
theorem gathered_eq_flatMap {β : Type} {visit : σ → ω × List β → ω × List β} {g : σ → List β}
    (hstep : ∀ it w, (visit it w).2 = w.2 ++ g it) {turns : Nat} {it : σ} {w : ω} {b : List β}
    {p : Report (Recorded σ) ((ω × List β) × List (Recorded σ)) Nat}
    (h : (r.gathering (List β)).observed visit turns it (w, b) = some p) :
    p.world.1.2 = b ++ p.world.2.flatMap fun n => g n.node := by
  rw [gathered_eq_foldl (fun it b => b ++ g it) hstep h]
  exact List.foldl_append_eq_append

/-- What a run gathers that adds the result at every visit: the results of the nodes it has
visited. -/
theorem gathered_results {visit : σ → ω × List α → ω × List α}
    (hstep : ∀ it w, (visit it w).2 = w.2 ++ (Operator.result it).toList) {turns : Nat} {it : σ}
    {w : ω} {p : Report (Recorded σ) ((ω × List α) × List (Recorded σ)) Nat}
    (h : (r.gathering (List α)).observed visit turns it (w, []) = some p) :
    p.world.1.2 = p.world.2.filterMap Operator.result := by
  rw [gathered_eq_flatMap hstep h, List.filterMap_eq_flatMap_toList]
  rfl

/-- What `all` does at a result. -/
def gather (it : σ) (w : ω × List α) : ω × List α :=
  onResult (fun x (w, xs) => (w, xs ++ [x])) it w

theorem snd_gather (it : σ) (w : ω × List α) :
    (gather it w).2 = w.2 ++ (Operator.result it).toList := by
  unfold gather onResult
  cases h : Operator.result it <;> simp

/-- What `all` has gathered are the results of the nodes it has visited. -/
theorem gathered_of_observed {turns : Nat} {it : σ} {w : ω}
    {p : Report (Recorded σ) ((ω × List α) × List (Recorded σ)) Nat}
    (h : (r.gathering (List α)).observed gather turns it (w, []) = some p) :
    p.world.1.2 = p.world.2.filterMap Operator.result :=
  gathered_results snd_gather h

end Run

end QueryPlan
