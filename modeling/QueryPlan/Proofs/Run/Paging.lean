import QueryPlan.Plan.Tree.Moves
import QueryPlan.Proofs.Run.Limit
import QueryPlan.Proofs.Run.Steady

/-!
# Page after page

A run with a limit that ends well leaves its node on the last result it was allowed, and a
second run over that node begins with the next one.  Without paths nothing else is between the
two: the second run takes the turns that the first one would have taken behind its limit, only
that it counts and writes down from the beginning.

* `Loop.haltFrom?_later` — a run that counts from elsewhere, and has a limit so much later,
  comes to the same end.
* `Run.haltFrom?_behind` — a run that writes down behind other records does so too.
* `Loop.exists_haltFrom?_later_iff` — the run with the later limit, cut in two.
* `Run.next_page_continues` — **paging**: two runs, one after the other, and a single one.
-/

namespace QueryPlan

/-! ## Counting from elsewhere -/

/-- The options with a limit so much later, if there is one. -/
def RunOptions.later (c : RunOptions) (a : Nat) : RunOptions := ⟨c.limit.map (a + ·), c.paths⟩

theorem RunOptions.reached_later (c : RunOptions) (a n : Nat) :
    (c.later a).reached (a + n) = c.reached n := by
  unfold reached later
  cases c.limit <;> simp

section Later

variable {σ ω : Type}

/-- The stand with so many more results counted. -/
def Stand.plus (a : Nat) (s : Stand σ ω) : Stand σ ω := { s with count := a + s.count }

/-- The end of a run with so many more results counted. -/
def Halt.plus (a : Nat) (h : Halt σ ω) : Halt σ ω := { h with count := a + h.count }

/-- The turn with so many more results counted. -/
def Turn.plus (a : Nat) : Turn σ ω → Turn σ ω
  | .halt h => .halt (h.plus a)
  | .go s => .go (s.plus a)

end Later

namespace Loop

variable {σ α ω : Type} [Operator σ α]

/-- The loop with a limit so much later, if it has one. -/
def later (l : Loop σ ω) (a : Nat) : Loop σ ω := { l with options := l.options.later a }

/-- The count matters to a turn for nothing but the limit. -/
theorem turn_later (l : Loop σ ω) (a : Nat) (s : Stand σ ω) :
    (l.later a).turn (s.plus a) = (l.turn s).plus a := by
  have hreached : (l.later a).options.reached (s.plus a).count = l.options.reached s.count :=
    l.options.reached_later a s.count
  cases hr : l.options.reached s.count with
  | true =>
    rw [turn_of_reached hr, turn_of_reached (hreached.trans hr)]
    rfl
  | false =>
    have hr' := hreached.trans hr
    cases he : (l.seen s).error? with
    | some e =>
      have he' : ((l.later a).seen (s.plus a)).error? = some e := he
      rw [turn_of_fired hr he, turn_of_fired hr' he']
      rfl
    | none =>
      have he' : ((l.later a).seen (s.plus a)).error? = none := he
      rcases ht : l.tried s with ⟨_ | _, it⟩
      · have ht' : (l.later a).tried (s.plus a) = (false, it) := ht
        cases hp : s.phase with
        | results =>
          rw [turn_of_over hr he ht hp, turn_of_over hr' he' ht' hp]
          rfl
        | paths =>
          rw [turn_of_back hr he ht hp, turn_of_back hr' he' ht' hp]
          rfl
      · have ht' : (l.later a).tried (s.plus a) = (true, it) := ht
        rw [turn_of_moved hr he ht, turn_of_moved hr' he' ht']
        rfl

/-- **A run that counts from elsewhere** comes to the same end. -/
theorem haltFrom?_later (l : Loop σ ω) (a : Nat) : ∀ (turns : Nat) (s : Stand σ ω),
    (l.later a).haltFrom? turns (s.plus a) = (l.haltFrom? turns s).map (Halt.plus a) := by
  intro turns
  induction turns with
  | zero => intro s; simp
  | succ n ih =>
    intro s
    rw [haltFrom?_succ, haltFrom?_succ, turn_later]
    cases l.turn s with
    | halt h => rfl
    | go s' => exact ih s'

/-! ## The end of the first page -/

/-- A run that has come some way comes to the same end from there. -/
theorem exists_haltFrom?_of_reaches_iff {l : Loop σ ω} {s s' : Stand σ ω} {h : Halt σ ω}
    (hs : l.Reaches s s') :
    (∃ turns, l.haltFrom? turns s = some h) ↔ ∃ turns, l.haltFrom? turns s' = some h := by
  refine ⟨?_, fun ⟨_, hh⟩ => haltFrom?_of_reaches hs hh⟩
  induction hs using Relation.ReflTransGen.head_induction_on with
  | refl => exact id
  | head ht _ ih =>
    rintro ⟨turns, hh⟩
    cases turns with
    | zero => simp at hh
    | succ n =>
      rw [haltFrom?_succ, ht] at hh
      exact ih ⟨n, hh⟩

/-- Without paths a run only ever asks for the next result. -/
theorem phase_of_reaches {l : Loop σ ω} (hpaths : l.options.paths = false) {s s' : Stand σ ω}
    (hs : l.Reaches s s') (hphase : s.phase = .results) : s'.phase = .results := by
  refine hs.invariant (P := fun t => t.phase = .results) ?_ hphase
  intro t t' _ hp ht
  obtain ⟨-, -, ⟨-, rfl⟩ | ⟨-, -, rfl⟩⟩ := turn_eq_go ht
  · simp [visited, phaseAfter, afterResult, hp, hpaths]
  · rfl

/-- Up to its limit a run goes where the run with the later limit goes. -/
theorem reaches_later {l : Loop σ ω} {a : Nat} {s s' : Stand σ ω}
    (hs : (l.limited a).Reaches s s') : (l.later a).Reaches s s' := by
  refine Relation.ReflTransGen.mono (fun t t' (ht : (l.limited a).turn t = .go t') => ?_) _ _ hs
  have hlt : t.count < a := by
    have hr := (turn_eq_go ht).1
    rw [reached_limited] at hr
    simpa using hr
  have hr : (l.later a).options.reached t.count = (l.limited a).options.reached t.count := by
    rw [reached_limited, decide_eq_false (by omega)]
    show RunOptions.reached ⟨l.options.limit.map (a + ·), l.options.paths⟩ t.count = false
    unfold RunOptions.reached
    cases l.options.limit with
    | none => rfl
    | some b =>
      show decide (a + b ≤ t.count) = false
      exact decide_eq_false (by omega)
  rw [turn, hr]
  rw [turn] at ht
  exact ht

/-- A run without paths that has visited as many results as its limit allows ended there. -/
theorem exists_settled {l : Loop σ ω} {a : Nat} {s : Stand σ ω} {turns : Nat} {h : Halt σ ω}
    (hh : (l.limited a).haltFrom? turns s = some h) (hcount : h.count = a) :
    ∃ s', (l.limited a).Reaches s s' ∧ s'.count = a ∧ s'.it = h.it ∧ s'.world = h.world := by
  obtain ⟨s', hs, ht⟩ := reaches_of_haltFrom? hh
  have hc : s'.count = a := (count_of_turn_eq_halt ht).symm.trans hcount
  have hr : (l.limited a).options.reached s'.count = true := by
    rw [reached_limited, hc]
    exact decide_eq_true (Nat.le_refl a)
  rw [turn_of_reached hr] at ht
  cases ht
  exact ⟨s', hs, hc, rfl, rfl⟩

/-- **A run with the later limit, cut in two.**  If the run with the first limit ended with as
many results, then the run with the later limit comes to the end that the run comes to which
begins there, with so many more results counted. -/
theorem exists_haltFrom?_later_iff {l : Loop σ ω} (hpaths : l.options.paths = false) {a : Nat}
    {it : σ} {w : ω} {turns : Nat} {h : Halt σ ω}
    (hh : (l.limited a).haltFrom? turns (.start it w) = some h) (hcount : h.count = a)
    {e : Halt σ ω} :
    (∃ turns, (l.later a).haltFrom? turns (.start it w) = some e) ↔
      ∃ turns e', l.haltFrom? turns (.start h.it h.world) = some e' ∧ e = e'.plus a := by
  obtain ⟨s, hs, hc, hit, hworld⟩ := exists_settled hh hcount
  have hphase : s.phase = .results := phase_of_reaches (l := l.limited a) hpaths hs rfl
  have hstand : s = (Stand.start h.it h.world).plus a := by
    rw [← hit, ← hworld]
    obtain ⟨phase, it, w, n⟩ := s
    obtain rfl : n = a := hc
    obtain rfl : phase = .results := hphase
    rfl
  rw [exists_haltFrom?_of_reaches_iff (reaches_later hs), hstand]
  refine exists_congr fun n => ?_
  rw [haltFrom?_later, Option.map_eq_some_iff]
  exact exists_congr fun e' => and_congr_right fun _ => eq_comm

/-- A run with a limit and without paths ends after that many turns and one to stop. -/
theorem exists_haltFrom?_of_limit {l : Loop σ ω} (hpaths : l.options.paths = false) {b : Nat}
    (hb : l.options.limit = some b) (it : σ) (w : ω) :
    ∃ h, l.haltFrom? (b + 1) (.start it w) = some h := by
  refine exists_haltFrom?_of_lt (fun s => b - s.count) (fun t t' ht hgo => ?_)
    (Nat.lt_succ_of_le (Nat.sub_le b 0))
  have hphase : t.phase = .results := phase_of_reaches hpaths ht rfl
  obtain ⟨hr, -, ⟨-, rfl⟩ | ⟨-, hp, -⟩⟩ := turn_eq_go hgo
  · have hlt : t.count < b := by simpa [RunOptions.reached, hb] using hr
    show b - (t.count + 1) < b - t.count
    omega
  · rw [hphase] at hp
    cases hp

end Loop

/-! ## Writing down behind other records -/

/-- The node with these calls in its record before its own. -/
def Recorded.behind {σ : Type} (calls : List Call) (n : Recorded σ) : Recorded σ :=
  ⟨n.node, calls ++ n.calls⟩

namespace Run

variable {σ α ω : Type} [Operator σ α]

/-- The world with these visits in its list before its own. -/
def behind (calls : List Call) (visits : List (Recorded σ)) (w : ω × List (Recorded σ)) :
    ω × List (Recorded σ) :=
  (w.1, visits ++ w.2.map (Recorded.behind calls))

/-- The nodes of such a list are those of the visits before and then those of the world. -/
theorem nodes_behind (calls : List Call) (visits : List (Recorded σ))
    (w : ω × List (Recorded σ)) :
    (behind calls visits w).2.map Recorded.node =
      visits.map Recorded.node ++ w.2.map Recorded.node := by
  rw [behind, List.map_append, List.map_map]
  rfl

/-- Earlier records make no difference to a run. -/
theorem watches_behind (r : Run ω) (visit : σ → ω → ω) (calls : List Call)
    (visits : List (Recorded σ)) :
    Watches (r.watched visit) (r.watched visit) (Recorded.behind calls) (behind calls visits) where
  options := rfl
  look _ := rfl
  visit it w := by
    show ((_ : ω), (visits ++ w.2.map (Recorded.behind calls)) ++ [it.behind calls]) =
      (_, visits ++ (w.2 ++ [it]).map (Recorded.behind calls))
    rw [List.map_append, List.append_assoc]
    rfl
  move phase s n := by
    rw [Recorded.move_eq, Recorded.move_eq]
    simp [Recorded.after, Recorded.behind]
  err _ := rfl

/-- A run that writes down behind other records. -/
theorem haltFrom?_behind (r : Run ω) (visit : σ → ω → ω) (n : Recorded σ)
    (w : ω × List (Recorded σ)) (turns : Nat) :
    (r.watched visit).haltFrom? turns (.start n w) =
      ((r.watched visit).haltFrom? turns (watchedStart n.node w.1)).map
        (Halt.map (Recorded.behind n.calls) (behind n.calls w.2)) := by
  rw [← (r.watches_behind visit n.calls w.2).haltFrom?_map turns (watchedStart n.node w.1)]
  congr 1
  simp [Stand.map, Stand.start, watchedStart, Recorded.of, Recorded.behind, behind]

/-! ## Two pages and a single run -/

/-- **A run goes on where another one stopped at its limit.**  If the run with the limit `a` ended
with `a` results, then the run with the later limit comes to the end of the run over the node
that is left, in the world that is left, behind the records that are there. -/
theorem exists_halt_later_iff {r : Run ω} (hpaths : r.options.paths = false)
    (visit : σ → ω → ω) {a : Nat} {it : σ} {w : ω} {turns : Nat}
    {h : Halt (Recorded σ) (ω × List (Recorded σ))}
    (hh : ((r.watched visit).limited a).haltFrom? turns (watchedStart it w) = some h)
    (hcount : h.count = a) {e : Halt (Recorded σ) (ω × List (Recorded σ))} :
    (∃ turns, ((r.watched visit).later a).haltFrom? turns (watchedStart it w) = some e) ↔
      ∃ turns e', (r.watched visit).haltFrom? turns (watchedStart h.it.node h.world.1) = some e' ∧
        e = (e'.map (Recorded.behind h.it.calls) (behind h.it.calls h.world.2)).plus a := by
  rw [watchedStart, Loop.exists_haltFrom?_later_iff hpaths hh hcount]
  refine exists_congr fun n => ?_
  rw [haltFrom?_behind]
  constructor
  · rintro ⟨e₁, he₁, rfl⟩
    obtain ⟨e', he', rfl⟩ := Option.map_eq_some_iff.1 he₁
    exact ⟨e', he', rfl⟩
  · rintro ⟨e', he', rfl⟩
    exact ⟨_, by rw [he']; rfl, rfl⟩

theorem count_of_verdict {stop : Option QueryError} {m n : Nat}
    (h : Report.verdict stop m = .ok n) : m = n := by
  cases stop with
  | none => exact Except.ok.inj h
  | some e => cases h

/-- What a still run over the node that a first page left comes to, and the run that does not
stop between the two. -/
theorem still_later_iff (rest : Option Nat) {a : Nat} {sig : Signal} {it : σ} {turns : Nat}
    {h : Halt (Recorded σ) (Unit × List (Recorded σ))}
    (hh : (stillLoop ⟨some a, false⟩ sig).haltFrom? turns (watchedStart it ()) = some h)
    (hcount : h.count = a) {e : Halt (Recorded σ) (Unit × List (Recorded σ))} :
    (∃ turns, (stillLoop ⟨rest.map (a + ·), false⟩ sig).haltFrom? turns (watchedStart it ()) =
        some e) ↔
      ∃ turns e', (stillLoop ⟨rest, false⟩ sig).haltFrom? turns (watchedStart h.it.node ()) =
          some e' ∧
        e = (e'.map (Recorded.behind h.it.calls) (behind h.it.calls h.world.2)).plus a :=
  exists_halt_later_iff (r := still ⟨rest, false⟩ sig) rfl (fun _ w => w) hh hcount

/-- What the reports on a first page, on the next one and on the single run say of each other. -/
theorem pages_of_tells {ω₁ ω₂ ω₃ : Type} {a : Nat}
    {h e : Halt (Recorded σ) (Unit × List (Recorded σ))}
    {page : Report (Recorded σ) (ω₁ × List (Recorded σ)) Nat}
    {next : Report (Recorded σ) (ω₂ × List (Recorded σ)) Nat}
    {whole : Report (Recorded σ) (ω₃ × List (Recorded σ)) Nat} (hpage : page.Tells h)
    (hnext : next.Tells e)
    (hwhole : whole.Tells
      ((e.map (Recorded.behind h.it.calls) (behind h.it.calls h.world.2)).plus a))
    (hlength : h.world.2.length = a) :
    page.world.2.map Recorded.node = (whole.world.2.map Recorded.node).take a ∧
      next.world.2.map Recorded.node = (whole.world.2.map Recorded.node).drop a ∧
      whole.it.calls = h.it.calls ++ next.it.calls ∧
      whole.it.node = next.it.node ∧
      whole.outcome = next.outcome.map (a + ·) := by
  have hnodes : whole.world.2.map Recorded.node =
      h.world.2.map Recorded.node ++ next.world.2.map Recorded.node := by
    rw [hwhole.visits, hnext.visits]
    exact nodes_behind h.it.calls h.world.2 e.world
  have hlength' : (h.world.2.map Recorded.node).length = a := by rw [List.length_map, hlength]
  refine ⟨?_, ?_, ?_, ?_, ?_⟩
  · rw [hpage.visits, hnodes, ← hlength', List.take_left]
  · rw [hnodes, ← hlength', List.drop_left]
  · rw [hwhole.it, hnext.it]
    rfl
  · rw [hwhole.it, hnext.it]
    rfl
  · rw [hwhole.outcome, hnext.outcome, Report.map_verdict]
    rfl

/-- **Paging.**  Take any node and a first run over it, with a limit of `a` and without paths, that
ended well with `a` results.  Then a second run over what it left of the node, with any limit or
none, does what a single run with a limit so much later does behind its first `a` results.  One
of the two comes to an end exactly if the other does, and with a limit they do.  The second run
visits the nodes that the single run visits behind the first `a`, which are those of the first
run, makes the calls that it makes behind those of the first run, leaves the node as the single
run leaves it, and reports the same error or, without one, `a` results less.  The three runs may
be in worlds of their own and with visitors of their own, as long as no context fires. -/
theorem next_page_continues {ω₁ ω₂ ω₃ : Type} {a : Nat} {rest : Option Nat} {first : Run ω₁}
    {second : Run ω₂} {single : Run ω₃} (hfirst : first.options = ⟨some a, false⟩)
    (hsecond : second.options = ⟨rest, false⟩)
    (hsingle : single.options = ⟨rest.map (a + ·), false⟩) {visit₁ : σ → ω₁ → ω₁}
    {visit₂ : σ → ω₂ → ω₂} {visit₃ : σ → ω₃ → ω₃} {it : σ} {w₁ : ω₁} {w₂ : ω₂} {w₃ : ω₃}
    {turns : Nat} {page : Report (Recorded σ) (ω₁ × List (Recorded σ)) Nat}
    (hpage : first.observed visit₁ turns it w₁ = some page) (hok : page.outcome = .ok a)
    (hclear₁ : (first.loop visit₁).Unfired (.start it w₁))
    (hclear₂ : (second.loop visit₂).Unfired (.start page.it.node w₂))
    (hclear₃ : (single.loop visit₃).Unfired (.start it w₃)) :
    ((∃ turns next, second.observed visit₂ turns page.it.node w₂ = some next) ↔
      ∃ turns whole, single.observed visit₃ turns it w₃ = some whole) ∧
    (∀ b, rest = some b →
      ∃ next, second.observed visit₂ (b + 1) page.it.node w₂ = some next) ∧
    ∀ turns₂ next turns₃ whole, second.observed visit₂ turns₂ page.it.node w₂ = some next →
      single.observed visit₃ turns₃ it w₃ = some whole →
      page.world.2.map Recorded.node = (whole.world.2.map Recorded.node).take a ∧
      next.world.2.map Recorded.node = (whole.world.2.map Recorded.node).drop a ∧
      whole.it.calls = page.it.calls ++ next.it.calls ∧
      whole.it.node = next.it.node ∧
      whole.outcome = next.outcome.map (a + ·) := by
  obtain ⟨h, hh, hpageTells⟩ := exists_halt_of_observed hclear₁ hpage
  have hcount : h.count = a := count_of_verdict (hpageTells.outcome.symm.trans hok)
  rw [hfirst] at hh
  rw [hpageTells.it] at hclear₂ ⊢
  have hcut (e) := still_later_iff rest hh hcount (e := e)
  refine ⟨⟨?_, ?_⟩, ?_, ?_⟩
  · rintro ⟨m, next, hnext⟩
    obtain ⟨e', he', -⟩ := exists_halt_of_observed hclear₂ hnext
    rw [hsecond] at he'
    obtain ⟨n, he⟩ := (hcut _).2 ⟨m, e', he', rfl⟩
    rw [← hsingle] at he
    obtain ⟨whole, hwhole, -⟩ := exists_observed_of_halt hclear₃ he
    exact ⟨n, whole, hwhole⟩
  · rintro ⟨n, whole, hwhole⟩
    obtain ⟨e, he, -⟩ := exists_halt_of_observed hclear₃ hwhole
    rw [hsingle] at he
    obtain ⟨m, e', he', -⟩ := (hcut e).1 ⟨n, he⟩
    rw [← hsecond] at he'
    obtain ⟨next, hnext, -⟩ := exists_observed_of_halt hclear₂ he'
    exact ⟨m, next, hnext⟩
  · rintro b rfl
    obtain ⟨e', he'⟩ := Loop.exists_haltFrom?_of_limit (l := stillLoop ⟨some b, false⟩ .clear)
      rfl rfl (Recorded.of h.it.node) ((), [])
    rw [← hsecond] at he'
    obtain ⟨next, hnext, -⟩ := exists_observed_of_halt hclear₂ he'
    exact ⟨next, hnext⟩
  · intro m next n whole hnext hwhole
    obtain ⟨e', he', hnextTells⟩ := exists_halt_of_observed hclear₂ hnext
    obtain ⟨e, he, hwholeTells⟩ := exists_halt_of_observed hclear₃ hwhole
    rw [hsecond] at he'
    rw [hsingle] at he
    obtain ⟨m', e₁, he₁, rfl⟩ := (hcut e).1 ⟨n, he⟩
    obtain rfl : e₁ = e' := Loop.haltFrom?_unique he₁ he'
    exact pages_of_tells hpageTells hnextTells hwholeTells
      ((length_visits_of_haltFrom? hh).trans hcount)

/-- With one row on the first page and one on the second, the two are the first two rows, which
a single run visits with a limit of two. -/
theorem next_page_continues_threeRows :
    ∃ page next whole : Report (Recorded (Cursor threeRows)) (Unit × List (Recorded _)) Nat,
      (still ⟨some 1, false⟩ .clear).observed (fun _ w => w) 8 (Cursor.start threeRows) () =
        some page ∧
      (still ⟨some 1, false⟩ .clear).observed (fun _ w => w) 8 page.it.node () = some next ∧
      (still ⟨some 2, false⟩ .clear).observed (fun _ w => w) 8 (Cursor.start threeRows) () =
        some whole ∧
      page.outcome = .ok 1 ∧ next.outcome = .ok 1 ∧
      whole.world.2.map (fun n => Operator.result n.node) = [some ⟨[1]⟩, some ⟨[2]⟩] ∧
      next.world.2.map Recorded.node = (whole.world.2.map Recorded.node).drop 1 ∧
      whole.outcome = next.outcome.map (1 + ·) := by
  have hclear (options : RunOptions) (it : Cursor threeRows) :
      ((still options .clear).loop fun _ w => w).Unfired (.start it ()) :=
    Loop.unfired_of_look (fun _ => rfl) _
  obtain ⟨page, hpage⟩ : ∃ page, (still ⟨some 1, false⟩ .clear).observed (fun _ w => w) 8
      (Cursor.start threeRows) () = some page := ⟨_, rfl⟩
  have hok : page.outcome = .ok 1 := by
    cases hpage
    rfl
  obtain ⟨-, -, hall⟩ := next_page_continues rfl rfl rfl hpage hok (hclear ⟨some 1, false⟩ _)
    (hclear ⟨some 1, false⟩ _) (hclear ⟨some 2, false⟩ _)
  cases hpage
  obtain ⟨-, hdrop, -, -, hout⟩ := hall 8 _ 8 _ rfl rfl
  exact ⟨_, _, _, rfl, rfl, rfl, hok, rfl, rfl, hdrop, hout⟩

end Run

end QueryPlan
