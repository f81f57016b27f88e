import Mathlib.Logic.Relation
import QueryPlan.Run.Answers

/-!
# A run, one turn at a time

`Loop.halt?` takes turn after turn under fuel.  This file makes a turn a step of its
own, from one `Stand` of a run to the next or to its end, so that a run is a chain of
steps and a statement about runs is proved of one step.

* `turn_eq_go`, `turn_eq_halt` — everything a turn can do, with the conditions under
  which it does it.
* `haltFrom?_succ` — one more unit of fuel is one more turn: the machine is the loop.
* `exists_haltFrom?_iff` — some fuel is enough exactly for the runs that come to an end,
  and `haltFrom?_unique` says that it does not matter how much.
* `exists_haltFrom?_of_lt` — how much is enough if every turn uses up work.
-/

namespace QueryPlan

/-- Where a run stands between two turns. -/
structure Stand (σ ω : Type) where
  /-- The cursor that moves next. -/
  phase : Phase
  /-- The node. -/
  it : σ
  /-- The world. -/
  world : ω
  /-- The number of results visited. -/
  count : Nat

/-- Where a run over the node begins. -/
def Stand.start {σ ω : Type} (it : σ) (w : ω) : Stand σ ω := ⟨.results, it, w, 0⟩

/-- What comes of a turn. -/
inductive Turn (σ ω : Type) where
  /-- The run is over. -/
  | halt (h : Halt σ ω)
  /-- The run stands elsewhere. -/
  | go (s : Stand σ ω)

/-- Moves the cursor that a phase names. -/
def Operator.move {σ α : Type} [Operator σ α] (phase : Phase) (s : Signal) (it : σ) : Bool × σ :=
  match phase with
  | .results => Operator.next s it
  | .paths => Operator.nextPath s it

namespace Loop

variable {σ α ω : Type} [Operator σ α]

/-! ## One turn -/

/-- What the run sees when it looks at its context. -/
def seen (l : Loop σ ω) (s : Stand σ ω) : Signal := (l.look s.world).1

/-- What the node is handed when it is asked to move. -/
def handed (l : Loop σ ω) (s : Stand σ ω) : Signal := (l.look (l.look s.world).2).1

/-- The world once run and node have looked at the context. -/
def outside (l : Loop σ ω) (s : Stand σ ω) : ω := (l.look (l.look s.world).2).2

/-- What the node answers when it is asked to move, and its state then. -/
def tried (l : Loop σ ω) (s : Stand σ ω) : Bool × σ := Operator.move s.phase (l.handed s) s.it

/-- The cursor that moves after a visit. -/
def phaseAfter (l : Loop σ ω) : Phase → Phase
  | .results => l.afterResult
  | .paths => .paths

/-- Where the run stands after a visit to the node. -/
def visited (l : Loop σ ω) (s : Stand σ ω) (it : σ) : Stand σ ω :=
  ⟨l.phaseAfter s.phase, it, l.visit it (l.outside s), s.count + 1⟩

/-- Where the run stands when there is no further way of reaching a result. -/
def turnedBack (l : Loop σ ω) (s : Stand σ ω) (it : σ) : Stand σ ω :=
  ⟨.results, it, l.outside s, s.count⟩

/-- One turn of a run. -/
def turn (l : Loop σ ω) (s : Stand σ ω) : Turn σ ω :=
  if l.options.reached s.count then .halt (settle s.it s.world s.count)
  else
    match (l.seen s).error? with
    | some e => .halt ⟨s.it, (l.look s.world).2, s.count, some e⟩
    | none =>
      match l.tried s, s.phase with
      | (true, it), _ => .go (l.visited s it)
      | (false, it), .results => .halt (settle it (l.outside s) s.count)
      | (false, it), .paths => .go (l.turnedBack s it)

theorem turn_of_reached {l : Loop σ ω} {s : Stand σ ω} (hr : l.options.reached s.count = true) :
    l.turn s = .halt (settle s.it s.world s.count) := by
  rw [turn, if_pos hr]

theorem turn_of_fired {l : Loop σ ω} {s : Stand σ ω} {e : QueryError}
    (hr : l.options.reached s.count = false) (he : (l.seen s).error? = some e) :
    l.turn s = .halt ⟨s.it, (l.look s.world).2, s.count, some e⟩ := by
  rw [turn, if_neg (by simp [hr]), he]

theorem turn_of_moved {l : Loop σ ω} {s : Stand σ ω} {it : σ}
    (hr : l.options.reached s.count = false) (he : (l.seen s).error? = none)
    (hm : l.tried s = (true, it)) : l.turn s = .go (l.visited s it) := by
  rw [turn, if_neg (by simp [hr]), he, hm]

theorem turn_of_over {l : Loop σ ω} {s : Stand σ ω} {it : σ}
    (hr : l.options.reached s.count = false) (he : (l.seen s).error? = none)
    (hm : l.tried s = (false, it)) (hp : s.phase = .results) :
    l.turn s = .halt (settle it (l.outside s) s.count) := by
  rw [turn, if_neg (by simp [hr]), he, hm, hp]

theorem turn_of_back {l : Loop σ ω} {s : Stand σ ω} {it : σ}
    (hr : l.options.reached s.count = false) (he : (l.seen s).error? = none)
    (hm : l.tried s = (false, it)) (hp : s.phase = .paths) :
    l.turn s = .go (l.turnedBack s it) := by
  rw [turn, if_neg (by simp [hr]), he, hm, hp]

/-- **A run goes on in two ways only**: the node moved and was visited, or it had no
further way of reaching its result.  Both need room below the limit and a context that
shows nothing. -/
theorem turn_eq_go {l : Loop σ ω} {s s' : Stand σ ω} (h : l.turn s = .go s') :
    l.options.reached s.count = false ∧ (l.seen s).error? = none ∧
      ((l.tried s).1 = true ∧ s' = l.visited s (l.tried s).2 ∨
        (l.tried s).1 = false ∧ s.phase = .paths ∧ s' = l.turnedBack s (l.tried s).2) := by
  unfold turn at h
  split at h
  · cases h
  · rename_i hr
    split at h
    · cases h
    · rename_i he
      refine ⟨by simpa using hr, he, ?_⟩
      split at h
      · rename_i it hm
        cases h
        exact Or.inl (by simp [hm])
      · cases h
      · rename_i it hm hp
        cases h
        exact Or.inr (by simp [hm, hp])

/-- **A run ends in three ways only**: at the limit, on a fired context, or when the node
has no further result. -/
theorem turn_eq_halt {l : Loop σ ω} {s : Stand σ ω} {h : Halt σ ω} (ht : l.turn s = .halt h) :
    l.options.reached s.count = true ∧ h = settle s.it s.world s.count ∨
      l.options.reached s.count = false ∧ (∃ e, (l.seen s).error? = some e ∧
        h = ⟨s.it, (l.look s.world).2, s.count, some e⟩) ∨
      l.options.reached s.count = false ∧ (l.seen s).error? = none ∧ (l.tried s).1 = false ∧
        s.phase = .results ∧ h = settle (l.tried s).2 (l.outside s) s.count := by
  unfold turn at ht
  split at ht
  · rename_i hr
    cases ht
    exact Or.inl ⟨hr, rfl⟩
  · rename_i hr
    have hr' : l.options.reached s.count = false := by simpa using hr
    split at ht
    · rename_i e he
      cases ht
      exact Or.inr (Or.inl ⟨hr', e, he, rfl⟩)
    · rename_i he
      split at ht
      · cases ht
      · rename_i it hm hp
        cases ht
        exact Or.inr (Or.inr ⟨hr', he, by simp [hm], hp, by simp [hm]⟩)
      · cases ht

/-! ## Counting -/

theorem count_of_turn_eq_go {l : Loop σ ω} {s s' : Stand σ ω} (h : l.turn s = .go s') :
    s'.count = s.count + 1 ∨ s'.count = s.count := by
  obtain ⟨-, -, ⟨-, rfl⟩ | ⟨-, -, rfl⟩⟩ := turn_eq_go h
  · exact Or.inl rfl
  · exact Or.inr rfl

theorem count_of_turn_eq_halt {l : Loop σ ω} {s : Stand σ ω} {h : Halt σ ω}
    (ht : l.turn s = .halt h) : h.count = s.count := by
  rcases turn_eq_halt ht with ⟨-, rfl⟩ | ⟨-, e, -, rfl⟩ | ⟨-, -, -, -, rfl⟩ <;> rfl

/-! ## Many turns -/

/-- The end of a run that stands somewhere; `none` if there is not enough fuel. -/
def haltFrom? (l : Loop σ ω) (turns : Nat) (s : Stand σ ω) : Option (Halt σ ω) :=
  l.halt? turns s.phase s.it s.world s.count

@[simp] theorem haltFrom?_zero (l : Loop σ ω) (s : Stand σ ω) : l.haltFrom? 0 s = none := by
  rw [haltFrom?, halt?]

/-- One more unit of fuel is one more turn. -/
theorem haltFrom?_succ (l : Loop σ ω) (turns : Nat) (s : Stand σ ω) :
    l.haltFrom? (turns + 1) s =
      match l.turn s with
      | .halt h => some h
      | .go s' => l.haltFrom? turns s' := by
  obtain ⟨phase, it, w, count⟩ := s
  rw [haltFrom?, halt?, turn]
  simp only [seen, tried, handed]
  split
  · rfl
  · cases (l.look w).1.error? with
    | some e => rfl
    | none =>
      cases phase with
      | results =>
        simp only [Operator.move]
        rcases Operator.next (l.look (l.look w).2).1 it with ⟨_ | _, it'⟩ <;> rfl
      | paths =>
        simp only [Operator.move]
        rcases Operator.nextPath (l.look (l.look w).2).1 it with ⟨_ | _, it'⟩ <;> rfl

/-- The run gets from one stand to the other. -/
def Reaches (l : Loop σ ω) : Stand σ ω → Stand σ ω → Prop :=
  Relation.ReflTransGen fun s s' => l.turn s = .go s'

/-- What each turn keeps, a run keeps. -/
theorem Reaches.invariant {l : Loop σ ω} {P : Stand σ ω → Prop} {s s' : Stand σ ω}
    (hstep : ∀ t t', l.Reaches s t → P t → l.turn t = .go t' → P t')
    (h : l.Reaches s s') (hs : P s) : P s' := by
  induction h with
  | refl => exact hs
  | tail hst ht ih => exact hstep _ _ hst ih ht

/-- A run never counts more results than its limit. -/
theorem Reaches.count_le {l : Loop σ ω} {it : σ} {w : ω} {s : Stand σ ω} {k : Nat}
    (hk : l.options.limit = some k) (h : l.Reaches (.start it w) s) : s.count ≤ k := by
  refine h.invariant (P := fun t => t.count ≤ k) ?_ (Nat.zero_le k)
  intro t t' _ _ ht
  have hr : t.count < k := by
    have := (turn_eq_go ht).1
    simpa [RunOptions.reached, hk] using this
  have hc := count_of_turn_eq_go ht
  omega

theorem haltFrom?_of_reaches {l : Loop σ ω} {s s' : Stand σ ω} {h : Halt σ ω}
    (hs : l.Reaches s s') {turns : Nat} (hh : l.haltFrom? turns s' = some h) :
    ∃ turns, l.haltFrom? turns s = some h := by
  induction hs using Relation.ReflTransGen.head_induction_on with
  | refl => exact ⟨turns, hh⟩
  | head ht _ ih =>
    obtain ⟨n, hn⟩ := ih
    exact ⟨n + 1, by rw [haltFrom?_succ, ht]; exact hn⟩

theorem reaches_of_haltFrom? {l : Loop σ ω} {h : Halt σ ω} :
    ∀ {turns : Nat} {s : Stand σ ω}, l.haltFrom? turns s = some h →
      ∃ s', l.Reaches s s' ∧ l.turn s' = .halt h := by
  intro turns
  induction turns with
  | zero => intro s hh; simp at hh
  | succ n ih =>
    intro s hh
    rw [haltFrom?_succ] at hh
    split at hh
    · rename_i h' ht
      cases hh
      exact ⟨s, .refl, ht⟩
    · rename_i s₁ ht
      obtain ⟨s', hs, ht'⟩ := ih hh
      exact ⟨s', hs.head ht, ht'⟩

/-- **Fuel only decides whether a run is seen to end**: some of it is enough exactly when
the run reaches a stand whose turn ends it. -/
theorem exists_haltFrom?_iff {l : Loop σ ω} {s : Stand σ ω} {h : Halt σ ω} :
    (∃ turns, l.haltFrom? turns s = some h) ↔ ∃ s', l.Reaches s s' ∧ l.turn s' = .halt h := by
  constructor
  · rintro ⟨turns, hh⟩
    exact reaches_of_haltFrom? hh
  · rintro ⟨s', hs, ht⟩
    have hlast : l.haltFrom? 1 s' = some h := by rw [haltFrom?_succ, ht]
    exact haltFrom?_of_reaches hs hlast

/-- **A run in which every turn uses up work comes to an end**, and needs no more turns than
there is work, and one to stop. -/
theorem exists_haltFrom?_of_lt {l : Loop σ ω} (work : Stand σ ω → Nat) :
    ∀ {turns : Nat} {s : Stand σ ω},
      (∀ t t', l.Reaches s t → l.turn t = .go t' → work t' < work t) → work s < turns →
      ∃ h, l.haltFrom? turns s = some h := by
  intro turns
  induction turns with
  | zero => intro s _ hlt; omega
  | succ n ih =>
    intro s hdown hlt
    rw [haltFrom?_succ]
    cases ht : l.turn s with
    | halt h => exact ⟨h, rfl⟩
    | go s' =>
      have hless := hdown s s' .refl ht
      exact ih (fun t t' hs' => hdown t t' (hs'.head ht)) (by omega)

theorem haltFrom?_mono {l : Loop σ ω} {h : Halt σ ω} :
    ∀ {m n : Nat} {s : Stand σ ω}, m ≤ n → l.haltFrom? m s = some h →
      l.haltFrom? n s = some h := by
  intro m
  induction m with
  | zero => intro n s _ hh; simp at hh
  | succ m ih =>
    intro n s hle hh
    obtain ⟨n, rfl⟩ : ∃ k, n = k + 1 := ⟨n - 1, by omega⟩
    rw [haltFrom?_succ] at hh ⊢
    split at hh
    · exact hh
    · exact ih (by omega) hh

theorem haltFrom?_unique {l : Loop σ ω} {s : Stand σ ω} {m n : Nat} {h h' : Halt σ ω}
    (hm : l.haltFrom? m s = some h) (hn : l.haltFrom? n s = some h') : h = h' := by
  have hm' := haltFrom?_mono (Nat.le_max_left m n) hm
  have hn' := haltFrom?_mono (Nat.le_max_right m n) hn
  exact Option.some.inj (hm'.symm.trans hn')

end Loop

end QueryPlan
