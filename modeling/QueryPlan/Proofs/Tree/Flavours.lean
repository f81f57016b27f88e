import QueryPlan.Proofs.Run.Steady
import QueryPlan.Proofs.Tree.Origins

/-!
# The flavours of a run agree

`count` counts the moves that succeed, the other flavours look for a result behind each of them,
and `first` stops after one and asks the node for its error there.  They come to the same only
over a node that has a result behind every successful move and no error behind a successful step
(`Operator.Presents`), and a plan tree is such a node at any time of its life.

* `Run.results_of_reaches` — along a run over such a node every visit finds a result.
* `Run.exists_halt_first` — the run of `first` next to that of the other flavours.
* `Cursor.presents` — plan trees have a result behind every successful move.
* `Run.flavours_agree` — **the five flavours agree.**
-/

namespace QueryPlan

/-- As long as `P` holds, the node has a result whenever a cursor has moved, and no error when the
step to a result has succeeded; and moving keeps `P`. -/
structure Operator.Presents {σ α : Type} [Operator σ α] (P : σ → Prop) : Prop where
  /-- Moving keeps `P`. -/
  keeps {it : σ} (h : P it) (phase : Phase) (s : Signal) : P (Operator.move phase s it).2
  /-- Behind a successful move there is a result. -/
  result {it : σ} (h : P it) {phase : Phase} {s : Signal}
    (hmoved : (Operator.move phase s it).1 = true) :
    (Operator.result (Operator.move phase s it).2).isSome = true
  /-- Behind a successful step there is no error. -/
  err {it : σ} (h : P it) {s : Signal} (hmoved : (Operator.next s it).1 = true) :
    Operator.err (Operator.next s it).2 = none

namespace Run

variable {σ α ω : Type} [Operator σ α]

/-! ## Runs over nodes that present their results -/

/-- **Along the run every visit finds a result.** -/
theorem results_of_reaches {P : σ → Prop} (hP : Operator.Presents P) {r : Run ω}
    {visit : σ → ω → ω} {it : σ} {w : ω} (hit : P it)
    {s : Stand (Recorded σ) (ω × List (Recorded σ))}
    (hs : (r.watched visit).Reaches (watchedStart it w) s) :
    P s.it.node ∧ ∀ n ∈ s.world.2, (Operator.result n.node).isSome = true := by
  refine hs.invariant (P := fun t => P t.it.node ∧
    ∀ n ∈ t.world.2, (Operator.result n.node).isSome = true) ?_
    ⟨hit, fun n hn => absurd hn List.not_mem_nil⟩
  rintro t t' - ⟨hnode, hresults⟩ ht
  obtain ⟨-, -, h⟩ := Loop.turn_eq_go ht
  rw [Loop.tried, Recorded.move_eq] at h
  rcases h with ⟨hmoved, rfl⟩ | ⟨-, -, rfl⟩
  · refine ⟨hP.keeps hnode _ _, fun n hn => ?_⟩
    rcases List.mem_append.1 hn with hn | hn
    · exact hresults n hn
    · rw [List.mem_singleton.1 hn]
      exact hP.result hnode hmoved
  · exact ⟨hP.keeps hnode _ _, hresults⟩

/-- So all the nodes that a run has visited have a result. -/
theorem results_of_haltFrom? {P : σ → Prop} (hP : Operator.Presents P) {r : Run ω}
    {visit : σ → ω → ω} {turns : Nat} {it : σ} {w : ω} (hit : P it)
    {h : Halt (Recorded σ) (ω × List (Recorded σ))}
    (hh : (r.watched visit).haltFrom? turns (watchedStart it w) = some h) :
    ∀ n ∈ h.world.2, (Operator.result n).isSome = true := by
  obtain ⟨s, hs, ht⟩ := Loop.reaches_of_haltFrom? hh
  obtain ⟨hvisits, -⟩ := watched_turn_eq_halt ht
  rw [hvisits]
  exact (results_of_reaches hP hit hs).2

/-- The limit of `first` is reached at the start exactly if the run's own limit is. -/
theorem reached_limitOfFirst (c : RunOptions) :
    (c.withLimit (limitOfFirst c.limit)).reached 0 = c.reached 0 := by
  unfold RunOptions.reached RunOptions.withLimit limitOfFirst
  cases c.limit with
  | none => rfl
  | some k => simp

/-- After a result that limit is reached. -/
theorem reached_one_limitOfFirst (c : RunOptions) :
    (c.withLimit (limitOfFirst c.limit)).reached 1 = true :=
  decide_eq_true (Nat.min_le_right _ 1)

/-- The first turn of a run that goes on visits the node, which has no error then. -/
theorem first_turn_eq_go {P : σ → Prop} (hP : Operator.Presents P) {r : Run ω}
    {visit : σ → ω → ω} {it : σ} {w : ω} (hit : P it)
    {s : Stand (Recorded σ) (ω × List (Recorded σ))}
    (ht : (r.watched visit).turn (watchedStart it w) = .go s) :
    s.world.2 = [s.it] ∧ s.count = 1 ∧ Operator.err s.it.node = none := by
  obtain ⟨-, -, h⟩ := Loop.turn_eq_go ht
  rw [Loop.tried, Recorded.move_eq] at h
  rcases h with ⟨hmoved, rfl⟩ | ⟨-, hphase, -⟩
  · exact ⟨rfl, rfl, hP.err hit hmoved⟩
  · cases hphase

/-- The run of `first` takes the same first turn. -/
theorem first_turn_eq (options : RunOptions) (sig : Signal) (it : σ) :
    (stillLoop (options.withLimit (limitOfFirst options.limit)) sig).turn (watchedStart it ()) =
      (stillLoop options sig).turn (watchedStart it ()) := by
  have hreached : (options.withLimit (limitOfFirst options.limit)).reached
      (watchedStart it ()).count = options.reached (watchedStart it ()).count :=
    reached_limitOfFirst options
  unfold Loop.turn
  rw [show (stillLoop (options.withLimit (limitOfFirst options.limit)) sig : Loop (Recorded σ)
    _).options.reached (watchedStart it ()).count = _ from hreached]
  rfl

/-- **The run of `first`** comes to the end of the run where that visits nothing, and otherwise
visits the first of its nodes and reports no error. -/
theorem exists_halt_first {P : σ → Prop} (hP : Operator.Presents P) {options : RunOptions}
    {sig : Signal} {turns : Nat} {it : σ} (hit : P it)
    {h : Halt (Recorded σ) (Unit × List (Recorded σ))}
    (hh : (stillLoop options sig).haltFrom? turns (watchedStart it ()) = some h) :
    ∃ h₁, (stillLoop (options.withLimit (limitOfFirst options.limit)) sig).haltFrom? turns
        (watchedStart it ()) = some h₁ ∧
      (h.world.2 = [] ∧ h₁ = h ∨
        ∃ n rest, h.world.2 = n :: rest ∧ h₁.world.2 = [n] ∧ h₁.err = none) := by
  cases turns with
  | zero => simp at hh
  | succ n =>
    rw [Loop.haltFrom?_succ] at hh ⊢
    rw [first_turn_eq]
    cases ht : (stillLoop options sig).turn (watchedStart it ()) with
    | halt e =>
      rw [ht] at hh
      cases hh
      obtain ⟨hvisits, -⟩ := watched_turn_eq_halt ht
      exact ⟨h, rfl, Or.inl ⟨hvisits, rfl⟩⟩
    | go s =>
      rw [ht] at hh
      obtain ⟨hvisits, hcount, herr⟩ := first_turn_eq_go hP hit ht
      obtain ⟨⟨rest, hrest⟩, -⟩ := records_grow_to_halt hh
      cases n with
      | zero => simp at hh
      | succ m =>
        have hreached : (stillLoop (options.withLimit (limitOfFirst options.limit)) sig : Loop
            (Recorded σ) _).options.reached s.count = true := by
          rw [hcount]
          exact reached_one_limitOfFirst options
        dsimp only
        rw [Loop.haltFrom?_succ, Loop.turn_of_reached hreached]
        refine ⟨_, rfl, Or.inr ⟨s.it, rest, ?_, hvisits, herr⟩⟩
        rw [← hrest, hvisits]
        rfl

/-! ## The five flavours -/

/-- Does this at a result and notes the result down. -/
def noting {β : Type} (f : β → ω → ω) (x : β) (w : ω × List β) : ω × List β :=
  (f x w.1, w.2 ++ [x])

theorem snd_onResult_noting (f : α → ω → ω) (it : σ) (w : ω × List α) :
    (onResult (noting f) it w).2 = w.2 ++ (Operator.result it).toList := by
  unfold onResult
  cases Operator.result it with
  | none => exact (List.append_nil _).symm
  | some x => rfl

/-- Noting down makes no difference to a run. -/
theorem watches_noting {β : Type} (r : Run ω) {visit : σ → ω → ω}
    {visit' : σ → ω × List β → ω × List β} (h : ∀ it w, visit it w.1 = (visit' it w).1) :
    Watches ((r.gathering (List β)).loop visit') (r.loop visit) id Prod.fst where
  options := rfl
  look _ := rfl
  visit := h
  move _ _ _ := rfl
  err _ := rfl

theorem fst_onResult_noting (f : α → ω → ω) (it : σ) (w : ω × List α) :
    onResult f it w.1 = (onResult (noting f) it w).1 := by
  unfold onResult
  cases Operator.result it <;> rfl

/-- What the flavours of a run answer if they visit these values and this error, if any, stops
them, each under the condition that its own context shows the signal all the time. -/
structure Agree (r : Run ω) (sig : Signal) (turns : Nat) (it : σ) (w : ω) (xs : List α)
    (stop : Option QueryError) : Prop where
  /-- `each` hands on the values. -/
  each (f : α → ω → ω) (h : (r.loop (onResult f)).Shows sig (.start it w)) :
    ∃ rep, (r.gathering (List α)).each (noting f) turns it (w, []) = some rep ∧
      r.each f turns it w = some (rep.map id Prod.fst) ∧
      rep.world.2 = xs ∧ rep.outcome = Report.verdict stop ()
  /-- `eachTagged` hands on as many bindings. -/
  eachTagged (f : Bindings α → ω → ω) (h : (r.loop (onTags f)).Shows sig (.start it w)) :
    ∃ rep, (r.gathering (List (Bindings α))).eachTagged (noting f) turns it (w, []) = some rep ∧
      r.eachTagged f turns it w = some (rep.map id Prod.fst) ∧
      rep.world.2.length = xs.length ∧ rep.outcome = Report.verdict stop ()
  /-- `count` counts the values. -/
  count (h : (r.loop fun _ w => w).Shows sig (.start it w)) :
    ∃ rep, r.count turns it w = some rep ∧ rep.outcome = Report.verdict stop xs.length
  /-- `all` collects the values. -/
  all (h : ((r.gathering (List α)).loop gather).Shows sig (.start it (w, []))) :
    ∃ rep, r.all turns it w = some rep ∧ rep.outcome = Report.verdict stop xs
  /-- `first` takes the first value, whatever stops the others behind it. -/
  first (h : (((r.withLimit (limitOfFirst r.options.limit)).gathering (Option α)).loop
      keep).Shows sig (.start it (w, none))) :
    ∃ rep, r.first turns it w = some rep ∧
      rep.outcome = match xs with
        | [] => Report.verdict stop none
        | x :: _ => .ok (some x)

/-- A run whose context shows the signal comes to the end of the still run, noting down or not. -/
theorem exists_noted {β : Type} {r : Run ω} {visit : σ → ω → ω}
    {visit' : σ → ω × List β → ω × List β} (hnoting : ∀ it w, visit it w.1 = (visit' it w).1)
    {sig : Signal} {turns : Nat} {it : σ} {w : ω}
    (hshows : (r.loop visit).Shows sig (.start it w))
    {h : Halt (Recorded σ) (Unit × List (Recorded σ))}
    (hh : (stillLoop r.options sig).haltFrom? turns (watchedStart it ()) = some h) :
    ∃ rep, (r.gathering (List β)).observed visit' turns it (w, []) = some rep ∧
      r.visiting visit turns it w = some ((rep.map Recorded.node Prod.fst).map id Prod.fst) ∧
      rep.Tells h := by
  have hshows' : ((r.gathering (List β)).loop visit').Shows sig (.start it (w, [])) :=
    (watches_noting r hnoting).shows hshows
  obtain ⟨rep, hrep, htells⟩ := exists_observed_of_halt hshows' hh
  refine ⟨rep, hrep, ?_, htells⟩
  have hvisiting := visiting_map (watches_noting r hnoting) it rfl turns (w, [])
  rw [visiting_of_observed hrep] at hvisiting
  exact hvisiting

/-- The answer of a flavour, which is read off the world. -/
theorem outcome_reading {ω₁ ω₂ β : Type} {rep : Report (Recorded σ) (ω × List (Recorded σ)) Nat}
    {h : Halt (Recorded σ) (ω₁ × List (Recorded σ))} (htells : rep.Tells h) (world : ω → ω₂)
    (answer : ω → β) :
    ((rep.map Recorded.node Prod.fst).reading world answer).outcome =
      Report.verdict h.err (answer rep.world.1) := by
  show rep.outcome.map _ = _
  rw [htells.outcome, Report.map_verdict]
  rfl

theorem fst_onTags_noting (f : Bindings α → ω → ω) (it : σ) (w : ω × List (Bindings α)) :
    onTags f it w.1 = (onTags (noting f) it w).1 := rfl

/-- A run that notes bindings down notes some for every visit. -/
theorem length_noted_tags {r : Run ω} {f : Bindings α → ω → ω} {turns : Nat} {it : σ} {w : ω}
    {rep : Report (Recorded σ) ((ω × List (Bindings α)) × List (Recorded σ)) Nat}
    (h : (r.gathering (List (Bindings α))).observed (onTags (noting f)) turns it (w, []) =
      some rep) : rep.world.1.2.length = rep.world.2.length := by
  have hstep (it : σ) (w : ω × List (Bindings α)) :
      (onTags (noting f) it w).2 = w.2 ++ [Operator.publish it .empty] := rfl
  rw [gathered_eq_flatMap hstep h, List.nil_append, ← List.map_eq_flatMap, List.length_map]

theorem snd_keep (it : σ) (w : ω × Option α) :
    (keep it w).2 = (Operator.result it).or w.2 := by
  unfold keep onResult
  cases Operator.result it <;> rfl

/-- **Over a node that presents its results the flavours agree.** -/
theorem agree_of_presents {P : σ → Prop} (hP : Operator.Presents P) {r : Run ω} {sig : Signal}
    {turns : Nat} {it : σ} (hit : P it) (w : ω)
    {h : Halt (Recorded σ) (Unit × List (Recorded σ))}
    (hh : (stillLoop r.options sig).haltFrom? turns (watchedStart it ()) = some h) :
    r.Agree sig turns it w (h.world.2.filterMap Operator.result) h.err := by
  have hresults := results_of_haltFrom? hP hit hh
  have hlength : (h.world.2.filterMap Operator.result).length = h.world.2.length :=
    List.filterMap_length_eq_length.2 hresults
  constructor
  case each =>
    intro f hshows
    obtain ⟨rep, hrep, hvisiting, htells⟩ :=
      exists_noted (fst_onResult_noting f) hshows hh
    refine ⟨_, by rw [Run.each, visiting_of_observed hrep]; rfl, by rw [Run.each, hvisiting]; rfl,
      ?_, outcome_reading htells _ _⟩
    rw [← htells.visits]
    exact gathered_results (snd_onResult_noting f) hrep
  case eachTagged =>
    intro f hshows
    obtain ⟨rep, hrep, hvisiting, htells⟩ := exists_noted (fst_onTags_noting f) hshows hh
    refine ⟨_, by rw [Run.eachTagged, visiting_of_observed hrep]; rfl,
      by rw [Run.eachTagged, hvisiting]; rfl, ?_, outcome_reading htells _ _⟩
    rw [hlength, ← htells.visits]
    exact length_noted_tags hrep
  case count =>
    intro hshows
    obtain ⟨rep, hrep, htells⟩ := exists_observed_of_halt hshows hh
    refine ⟨_, visiting_of_observed hrep, ?_⟩
    show rep.outcome = _
    rw [htells.outcome, hlength, length_visits_of_haltFrom? hh]
  case all =>
    intro hshows
    obtain ⟨rep, hrep, htells⟩ := exists_observed_of_halt hshows hh
    refine ⟨_, congrArg (Option.map (Report.reading Prod.fst Prod.snd))
      (visiting_of_observed hrep), ?_⟩
    rw [outcome_reading htells, gathered_of_observed hrep, htells.visits]
  case first =>
    intro hshows
    obtain ⟨h₁, hh₁, hfirst⟩ := exists_halt_first hP hit hh
    obtain ⟨rep, hrep, htells⟩ := exists_observed_of_halt hshows hh₁
    refine ⟨_, congrArg (Option.map (Report.reading Prod.fst Prod.snd))
      (visiting_of_observed hrep), ?_⟩
    rw [outcome_reading htells, gathered_eq_foldl (fun it b => (Operator.result it).or b) snd_keep
      hrep, htells.visits]
    rcases hfirst with ⟨hnone, rfl⟩ | ⟨n, rest, hcons, hone, herr⟩
    · rw [hnone]
      rfl
    · obtain ⟨x, hx⟩ := Option.isSome_iff_exists.1 (hresults n (by rw [hcons]; simp))
      have hx' : Operator.result n.node = some x := hx
      rw [hcons, List.filterMap_cons_some hx, hone, herr, List.foldl_cons, hx']
      rfl

end Run

/-! ## Plan trees -/

namespace Cursor

variable {α : Type} [Item α] {p : BasicPlan α}

/-- **A step that succeeds leads to a result**, and to a root without an error if the root's state
told of its errors before. -/
theorem finds_of_next (s : Signal) (c : Cursor p) (hyes : (next s c).1 = true) :
    (result (next s c).2).isSome = true ∧ (Tells c → err (next s c).2 = none) := by
  cases p with
  | null uid => cases hyes
  | error uid e => cases hyes
  | custom n => cases n
  | fixed uid leaf =>
    cases c with
    | fixed c =>
      have hends := leaf.next_ends s c
      rw [next_fixed] at hyes ⊢
      generalize leaf.next s c = answer at hends hyes ⊢
      cases hends with
      | moved ht _ hi =>
        refine ⟨?_, fun hsound : c.Sound => hsound.err_eq_none ht⟩
        show ((leaf.rows[c.index]?).map Row.value).isSome = true
        rw [List.getElem?_eq_getElem hi]
        rfl
      | _ => cases hyes
  | probe uid p os =>
    cases c with
    | probe e c cs =>
      have hends := next_probe_ends_anyhow uid e c cs s
      generalize next s (.probe e c cs : Cursor (.probe uid p os)) = answer at hends hyes ⊢
      cases hends with
      | stopped e => cases hyes
      | fired _ => cases hyes
      | searched _ h =>
        cases h with
        | found _ _ _ hx _ => exact ⟨Option.isSome_of_eq_some hx, fun _ => rfl⟩
        | _ => cases hyes

omit [Item α] in
/-- **A path step that succeeds leaves the root on its result.** -/
theorem result_of_nextPath (s : Signal) :
    ∀ c : Cursor p, (nextPath s c).1 = true → (result (nextPath s c).2).isSome = true := by
  induction p using BasicPlan.induct with
  | null uid =>
    intro c hyes
    cases c
    cases hyes
  | error uid e =>
    intro c hyes
    cases c
    cases hyes
  | fixed uid leaf =>
    intro c
    cases c with
    | fixed c =>
      have hends := leaf.nextPath_ends s c
      rw [nextPath_fixed]
      generalize leaf.nextPath s c = answer at hends ⊢
      intro hyes
      cases hends with
      | moved hr _ _ =>
        show ((leaf.currentRow c).map Row.value).isSome = true
        rw [hr]
        rfl
      | _ => cases hyes
  | probe uid p os ih _ =>
    intro c
    cases c with
    | probe e c cs =>
      rw [nextPath_probe]
      exact ih c

/-- **Plan trees present their results.** -/
theorem presents : Operator.Presents (Tells : Cursor p → Prop) where
  keeps {c} h phase s := by
    cases phase with
    | results => exact tells_after (.next s) c h
    | paths => exact tells_after (.nextPath s) c h
  result {c} h phase s hmoved := by
    cases phase with
    | results => exact (finds_of_next s c hmoved).1
    | paths => exact result_of_nextPath s c hmoved
  err {c} h s hmoved := (finds_of_next s c hmoved).2 h

end Cursor

namespace Run

variable {α : Type} [Item α]

/-- **The five flavours agree.**  Take a plan tree of which anything has been asked, options, and a
signal that the contexts of the runs show all the time.  Then there are values and, perhaps, an
error such that, whatever the world and whatever is done at a result, `each` visits these values
and returns the error, `eachTagged` is called as often, `count` counts them, `all` collects them,
all three with the same error instead if there is one, and `first` returns the first of them, or
what `each` returns if there is none. -/
theorem flavours_agree (p : BasicPlan α) {c : Cursor p}
    (hc : Operator.Leads (fun _ : Request α => True) (Cursor.start p) c) (options : RunOptions)
    (sig : Signal) :
    ∃ (xs : List α) (stop : Option QueryError), ∀ {ω : Type} (r : Run ω) (w : ω) {turns : Nat},
      r.options = options → turnsFor c ≤ turns → r.Agree sig turns c w xs stop := by
  obtain ⟨h, hh⟩ := exists_halt_watched (still options sig) (fun _ w => w) c () (Nat.le_refl _)
  refine ⟨h.world.2.filterMap Operator.result, h.err, fun r w turns hoptions hturns => ?_⟩
  have hh' := Loop.haltFrom?_mono hturns hh
  rw [← hoptions] at hh'
  exact agree_of_presents Cursor.presents (Cursor.tells_of_leads hc) w hh'

/-- The intersection with three ways to its result, after a test and a step. -/
def alongWays : Cursor threeWays :=
  Request.afterAll [.contains .clear ⟨[2]⟩, .next .clear, .rewind] (Cursor.start threeWays)

/-- With paths and a limit of two, the flavours agree on the result, twice. -/
theorem flavours_agree_alongWays :
    Operator.Leads (fun _ : Request Ref => True) (Cursor.start threeWays) alongWays ∧
    turnsFor alongWays ≤ 8 ∧
    ∃ xs stop, (Run.mk ⟨some 2, true⟩ fun w : Unit => (.clear, w)).Agree .clear 8 alongWays () xs
        stop ∧
      Report.verdict stop xs = .ok [⟨[2]⟩, ⟨[2]⟩] := by
  have hleads : Operator.Leads (fun _ : Request Ref => True) (Cursor.start threeWays) alongWays :=
    Operator.Leads.refl.requests fun _ _ => trivial
  have hturns : turnsFor alongWays ≤ 8 := by decide
  obtain ⟨xs, stop, hall⟩ := flavours_agree threeWays hleads ⟨some 2, true⟩ .clear
  have hagree := hall (Run.mk ⟨some 2, true⟩ fun w : Unit => (.clear, w)) () rfl hturns
  obtain ⟨rep, hrep, hout⟩ := hagree.all (Loop.shows_of_look (fun _ => rfl) _)
  have hvalues : ((Run.mk ⟨some 2, true⟩ fun w : Unit => (.clear, w)).all 8 alongWays ()).map
      Report.outcome = some (.ok [⟨[2]⟩, ⟨[2]⟩]) := rfl
  rw [hrep] at hvalues
  exact ⟨hleads, hturns, xs, stop, hagree, hout.symm.trans (Option.some.inj hvalues)⟩

end Run

end QueryPlan
