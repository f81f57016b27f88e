import QueryPlan.Proofs.Run.Watching

/-!
# Nodes that behave alike

A run knows its node by the node's answers.  Two nodes, perhaps of different kinds, behave
alike if they answer every call in the same way and are still alike afterwards; whatever else
they hold makes no difference to a run over them.

* `Operator.Likens` — a relation between nodes that says so.
* `Turn.Like`, `Run.turn_like` — alike nodes take the same turns.
* `Run.sameAnswers_of_alike` — so every flavour of a run gives the same answer and leaves the
  same world behind, whichever of two alike nodes it is over.
-/

namespace QueryPlan

section

variable {σ σ' α ω : Type} [Operator σ α] [Operator σ' α]

/-! ## Alike nodes -/

/-- Nodes that the relation holds of behave alike. -/
structure Operator.Likens (R : σ → σ' → Prop) : Prop where
  /-- They answer a call to move in the same way and are alike afterwards. -/
  move : ∀ {it it'}, R it it' → ∀ phase s,
    (Operator.move phase s it).1 = (Operator.move phase s it').1 ∧
      R (Operator.move phase s it).2 (Operator.move phase s it').2
  /-- They report the same error. -/
  err : ∀ {it it'}, R it it' → Operator.err it = Operator.err it'
  /-- They stand on the same result. -/
  result : ∀ {it it'}, R it it' → Operator.result it = Operator.result it'
  /-- They publish the same bindings. -/
  publish : ∀ {it it'}, R it it' → ∀ dst, Operator.publish it dst = Operator.publish it' dst

/-! ## Turns -/

/-- Turns that come to the same but for the node, and alike nodes. -/
inductive Turn.Like (R : σ → σ' → Prop) : Turn σ ω → Turn σ' ω → Prop where
  /-- Both runs end. -/
  | halt {it : σ} {it' : σ'} (h : R it it') (w : ω) (n : Nat) (e : Option QueryError) :
      Like R (.halt ⟨it, w, n, e⟩) (.halt ⟨it', w, n, e⟩)
  /-- Both runs go on. -/
  | go {it : σ} {it' : σ'} (h : R it it') (phase : Phase) (w : ω) (n : Nat) :
      Like R (.go ⟨phase, it, w, n⟩) (.go ⟨phase, it', w, n⟩)

/-- The end of a run without its node. -/
def Halt.shown (h : Halt σ ω) : ω × Nat × Option QueryError := (h.world, h.count, h.err)

namespace Run

variable {R : σ → σ' → Prop} {visit : σ → ω → ω} {visit' : σ' → ω → ω}

/-- **Alike nodes take the same turns.** -/
theorem turn_like (hR : Operator.Likens R)
    (hvisit : ∀ {it it'}, R it it' → ∀ w, visit it w = visit' it' w) (r : Run ω) {it : σ}
    {it' : σ'} (h : R it it') (phase : Phase) (w : ω) (n : Nat) :
    Turn.Like R ((r.loop visit).turn ⟨phase, it, w, n⟩)
      ((r.loop visit').turn ⟨phase, it', w, n⟩) := by
  -- both runs look at the same world, so they see and hand on the same signals
  let l : Loop σ ω := r.loop visit
  let l' : Loop σ' ω := r.loop visit'
  let s : Stand σ ω := ⟨phase, it, w, n⟩
  let s' : Stand σ' ω := ⟨phase, it', w, n⟩
  show Turn.Like R (l.turn s) (l'.turn s')
  cases hr : l.options.reached s.count with
  | true =>
    have hr' : l'.options.reached s'.count = true := hr
    rw [Loop.turn_of_reached hr, Loop.turn_of_reached hr', Loop.settle, Loop.settle, hR.err h]
    exact .halt h _ _ _
  | false =>
    have hr' : l'.options.reached s'.count = false := hr
    cases he : (l.seen s).error? with
    | some e =>
      have he' : (l'.seen s').error? = some e := he
      rw [Loop.turn_of_fired hr he, Loop.turn_of_fired hr' he']
      exact .halt h _ _ _
    | none =>
      have he' : (l'.seen s').error? = none := he
      obtain ⟨hyes, hafter⟩ := hR.move h phase (l.handed s)
      rcases ht : l.tried s with ⟨yes, jt⟩
      rcases ht' : l'.tried s' with ⟨yes', jt'⟩
      rw [show Operator.move phase (l.handed s) it = (yes, jt) from ht,
        show Operator.move phase (l.handed s) it' = (yes', jt') from ht'] at hyes hafter
      dsimp only at hyes hafter
      subst hyes
      cases yes with
      | true =>
        rw [Loop.turn_of_moved hr he ht, Loop.turn_of_moved hr' he' ht', Loop.visited,
          Loop.visited, show l.visit jt _ = l'.visit jt' _ from hvisit hafter _]
        exact .go hafter _ _ _
      | false =>
        cases hp : phase with
        | results =>
          rw [Loop.turn_of_over hr he ht hp, Loop.turn_of_over hr' he' ht' hp, Loop.settle,
            Loop.settle, hR.err hafter]
          exact .halt hafter _ _ _
        | paths =>
          rw [Loop.turn_of_back hr he ht hp, Loop.turn_of_back hr' he' ht' hp]
          exact .go hafter _ _ _

/-- Runs over alike nodes end alike, or neither ends within the turns. -/
theorem haltFrom?_like (hR : Operator.Likens R)
    (hvisit : ∀ {it it'}, R it it' → ∀ w, visit it w = visit' it' w) (r : Run ω) :
    ∀ (turns : Nat) {it : σ} {it' : σ'}, R it it' → ∀ (phase : Phase) (w : ω) (n : Nat),
      ((r.loop visit).haltFrom? turns ⟨phase, it, w, n⟩).map Halt.shown =
        ((r.loop visit').haltFrom? turns ⟨phase, it', w, n⟩).map Halt.shown := by
  intro turns
  induction turns with
  | zero =>
    intro it it' _ phase w n
    rw [Loop.haltFrom?_zero, Loop.haltFrom?_zero]
    rfl
  | succ k ih =>
    intro it it' h phase w n
    rw [Loop.haltFrom?_succ, Loop.haltFrom?_succ]
    have hlike := turn_like hR hvisit r h phase w n
    generalize (r.loop visit).turn ⟨phase, it, w, n⟩ = t at hlike ⊢
    generalize (r.loop visit').turn ⟨phase, it', w, n⟩ = t' at hlike ⊢
    cases hlike with
    | halt _ _ _ _ => rfl
    | go h' phase' w' n' => exact ih h' phase' w' n'

end Run

end

/-! ## Whole runs -/

/-- Both runs came to an end, with the same answer and in the same world. -/
def Report.Agree {σ σ' ω β : Type} (x : Option (Report σ ω β)) (y : Option (Report σ' ω β)) :
    Prop :=
  ∃ rep rep', x = some rep ∧ y = some rep' ∧ rep.outcome = rep'.outcome ∧ rep.world = rep'.world

theorem Report.Agree.trans {σ σ' σ'' ω β : Type} {x : Option (Report σ ω β)}
    {y : Option (Report σ' ω β)} {z : Option (Report σ'' ω β)} (h : Agree x y) (h' : Agree y z) :
    Agree x z := by
  obtain ⟨rep₁, rep₂, hx, hy, houtcome, hworld⟩ := h
  obtain ⟨rep₂', rep₃, hy', hz, houtcome', hworld'⟩ := h'
  obtain rfl : rep₂ = rep₂' := Option.some.inj (hy.symm.trans hy')
  exact ⟨rep₁, rep₃, hx, hz, houtcome.trans houtcome', hworld.trans hworld'⟩

theorem Report.Agree.reading {σ σ' ω ω' β : Type} {x : Option (Report σ ω Nat)}
    {y : Option (Report σ' ω Nat)} (h : Agree x y) (world : ω → ω') (answer : ω → β) :
    Agree (x.map (Report.reading world answer)) (y.map (Report.reading world answer)) := by
  obtain ⟨rep, rep', rfl, rfl, houtcome, hworld⟩ := h
  refine ⟨rep.reading world answer, rep'.reading world answer, rfl, rfl, ?_, ?_⟩
  · rw [Report.reading, Report.reading, houtcome, hworld]
  · rw [Report.reading, Report.reading, hworld]

namespace Run

variable {σ σ' α ω : Type} [Operator σ α] [Operator σ' α]

/-- Every flavour of the run comes to an end over both nodes, with the same answer and in the
same world. -/
structure SameAnswers (r : Run ω) (turns : Nat) (it : σ) (it' : σ') (w : ω) : Prop where
  /-- Results handed to a function. -/
  each : ∀ f : α → ω → ω, Report.Agree (r.each f turns it w) (r.each f turns it' w)
  /-- Bindings handed to a function. -/
  eachTagged : ∀ f : Bindings α → ω → ω,
    Report.Agree (r.eachTagged f turns it w) (r.eachTagged f turns it' w)
  /-- Results counted. -/
  count : Report.Agree (r.count turns it w) (r.count turns it' w)
  /-- Results collected. -/
  all : Report.Agree (r.all turns it w) (r.all turns it' w)
  /-- The first result. -/
  first : Report.Agree (r.first turns it w) (r.first turns it' w)

theorem SameAnswers.trans {σ'' : Type} [Operator σ'' α] {r : Run ω} {turns : Nat} {it : σ}
    {it' : σ'} {it'' : σ''} {w : ω} (h : r.SameAnswers turns it it' w)
    (h' : r.SameAnswers turns it' it'' w) : r.SameAnswers turns it it'' w where
  each f := (h.each f).trans (h'.each f)
  eachTagged f := (h.eachTagged f).trans (h'.eachTagged f)
  count := h.count.trans h'.count
  all := h.all.trans h'.all
  first := h.first.trans h'.first

variable {R : σ → σ' → Prop} {turns : Nat} {it : σ} {it' : σ'}

/-- Runs over alike nodes agree, if one of them ends. -/
theorem visiting_agree (hR : Operator.Likens R) (visit : σ → ω → ω) (visit' : σ' → ω → ω)
    (hvisit : ∀ {it it'}, R it it' → ∀ w, visit it w = visit' it' w) (r : Run ω)
    (h : R it it') (w : ω)
    (hends : ∃ e, (r.loop visit).haltFrom? turns (.start it w) = some e) :
    Report.Agree (r.visiting visit turns it w) (r.visiting visit' turns it' w) := by
  obtain ⟨e, he⟩ := hends
  have hlike := haltFrom?_like hR hvisit r turns h .results w 0
  rw [show (r.loop visit).haltFrom? turns ⟨.results, it, w, 0⟩ = some e from he] at hlike
  obtain ⟨e', he', hshown⟩ := Option.map_eq_some_iff.1 hlike.symm
  obtain ⟨hworld, hcount, herr⟩ : e'.world = e.world ∧ e'.count = e.count ∧ e'.err = e.err := by
    simpa [Halt.shown] using hshown
  refine ⟨Report.ofHalt (Operator.uid it) e, Report.ofHalt (Operator.uid it') e', ?_, ?_, ?_, ?_⟩
  · rw [visiting_eq, he]
    rfl
  · rw [visiting_eq, Stand.start, he']
    rfl
  · rw [ofHalt_outcome, ofHalt_outcome, hcount, herr]
  · rw [ofHalt_world, ofHalt_world, hworld]

theorem onResult_alike (hR : Operator.Likens R) (f : α → ω → ω) (h : R it it') (w : ω) :
    onResult f it w = onResult f it' w := by
  rw [onResult, onResult, hR.result h]

theorem onTags_alike (hR : Operator.Likens R) (f : Bindings α → ω → ω) (h : R it it') (w : ω) :
    onTags f it w = onTags f it' w := by
  rw [onTags, onTags, hR.publish h]

/-- **Runs over alike nodes give the same answers**, if runs over one of them end. -/
theorem sameAnswers_of_alike (hR : Operator.Likens R) (r : Run ω) (h : R it it') (w : ω)
    (hends : ∀ {ω' : Type} (l : Loop σ ω') (w' : ω'),
      ∃ e, l.haltFrom? turns (.start it w') = some e) :
    r.SameAnswers turns it it' w where
  each f := (visiting_agree hR _ _ (onResult_alike hR f) r h w (hends _ _)).reading _ _
  eachTagged f := (visiting_agree hR _ _ (onTags_alike hR f) r h w (hends _ _)).reading _ _
  count := visiting_agree hR (fun _ w => w) (fun _ w => w) (fun _ _ => rfl) r h w (hends _ _)
  all := (visiting_agree hR _ _ (onResult_alike hR _) _ h _ (hends _ _)).reading _ _
  first := (visiting_agree hR _ _ (onResult_alike hR _) _ h _ (hends _ _)).reading _ _

end Run

end QueryPlan
