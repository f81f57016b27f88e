import QueryPlan.Proofs.Run.Firing

/-!
# The account of a run

Under a context that does not fire, a run sees of a node what there is to be seen of it, one thing
after the other, for as long as its limit leaves room.  The account of the run is what it has seen,
followed by what is still to come, and no turn changes it.

* `Operator.Unrolls` — what is to come of a node: what has to be shown for a single move.
* `Run.watched_turn_clear` — a turn of such a run that goes on.
* `Run.account_of_turn`, `Run.account_of_halt` — a turn keeps the account, and at the end nothing
  of it is to come.
* `Operator.Unrolls.visits_of_haltFrom?` — **a whole run sees what was to come at its start.**
-/

namespace QueryPlan

/-! ## The room below a limit -/

namespace RunOptions

variable {β : Type} {c : RunOptions}

/-- The results for which there is room below the limit when so many have been counted. -/
def room (c : RunOptions) (count : Nat) (xs : List β) : List β :=
  match c.limit with
  | none => xs
  | some limit => xs.take (limit - count)

/-- The results for which there is room in a whole run. -/
def cut (c : RunOptions) (xs : List β) : List β := c.room 0 xs

theorem room_nil (c : RunOptions) (n : Nat) : c.room n ([] : List β) = [] := by
  unfold room
  split <;> simp

theorem room_of_reached {n : Nat} (h : c.reached n = true) (xs : List β) : c.room n xs = [] := by
  cases hl : c.limit with
  | none =>
    rw [reached, hl] at h
    cases h
  | some limit =>
    rw [reached, hl] at h
    have hle : limit ≤ n := by simpa using h
    rw [room, hl]
    dsimp only
    rw [Nat.sub_eq_zero_of_le hle, List.take_zero]

theorem room_cons {n : Nat} (h : c.reached n = false) (x : β) (xs : List β) :
    c.room n (x :: xs) = x :: c.room (n + 1) xs := by
  cases hl : c.limit with
  | none => rw [room, room, hl]
  | some limit =>
    rw [reached, hl] at h
    have hlt : n < limit := by simpa using h
    rw [room, room, hl]
    dsimp only
    rw [show limit - n = (limit - (n + 1)) + 1 by omega, List.take_succ_cons]

theorem cut_map {γ : Type} (f : β → γ) (c : RunOptions) (xs : List β) :
    c.cut (xs.map f) = (c.cut xs).map f := by
  unfold cut room
  split <;> simp

theorem cut_of_limit_eq_none (h : c.limit = none) (xs : List β) : c.cut xs = xs := by
  rw [cut, room, h]

end RunOptions

/-! ## What is to come -/

namespace Cursor

/-- What a run does after a step that found a result. -/
def phaseOf (paths : Bool) : Phase := if paths then .paths else .results

theorem phaseOf_false : phaseOf false = .results := rfl

theorem phaseOf_true : phaseOf true = .paths := rfl

end Cursor

/-- As long as `P` holds, `come` tells what a run under a context that shows nothing has still to
see of the node, through `view`: a move that succeeds brings the first of it into view, a step that
fails leaves none of it, and a path step that fails leaves it as it is. -/
structure Operator.Unrolls {σ α β : Type} [Operator σ α] (paths : Bool) (P : σ → Prop)
    (view : σ → β) (come : Phase → σ → List β) : Prop where
  /-- A step that succeeds. -/
  next_moved {it it' : σ} (h : P it) (hm : Operator.next .clear it = (true, it')) :
    P it' ∧ come .results it = view it' :: come (Cursor.phaseOf paths) it'
  /-- A step that fails. -/
  next_over {it it' : σ} (h : P it) (hm : Operator.next .clear it = (false, it')) :
    come .results it = []
  /-- A path step that succeeds. -/
  nextPath_moved {it it' : σ} (h : P it) (hm : Operator.nextPath .clear it = (true, it')) :
    P it' ∧ come .paths it = view it' :: come .paths it'
  /-- A path step that fails. -/
  nextPath_over {it it' : σ} (h : P it) (hm : Operator.nextPath .clear it = (false, it')) :
    P it' ∧ come .paths it = come .results it'

namespace Run

variable {σ α ω β : Type} [Operator σ α] {r : Run ω} {visit : σ → ω → ω}

/-- **A turn that goes on under a context that shows nothing**: the node has moved and is visited,
or it has no further way of reaching its result. -/
theorem watched_turn_clear {s s' : Stand (Recorded σ) (ω × List (Recorded σ))}
    (hclear : (r.watched visit).handed s = .clear) (ht : (r.watched visit).turn s = .go s') :
    (Operator.move s.phase .clear s.it.node = (true, s'.it.node) ∧
        s' = (r.watched visit).visited s s'.it) ∨
      s.phase = .paths ∧ Operator.nextPath .clear s.it.node = (false, s'.it.node) ∧
        s' = (r.watched visit).turnedBack s s'.it := by
  obtain ⟨phase, it, w, n⟩ := s
  obtain ⟨-, -, h⟩ := Loop.turn_eq_go ht
  rw [Loop.tried, Recorded.move_eq, hclear] at h
  dsimp only at h
  rcases hm : Operator.move phase .clear it.node with ⟨yes, c⟩
  rw [hm] at h
  rcases h with ⟨rfl, rfl⟩ | ⟨rfl, rfl, rfl⟩
  · exact Or.inl ⟨rfl, rfl⟩
  · exact Or.inr ⟨rfl, hm, rfl⟩

/-! ## The account -/

/-- What was seen of the nodes visited so far, followed by what is still to come. -/
def account (options : RunOptions) (view : σ → β) (come : Phase → σ → List β)
    (s : Stand (Recorded σ) (ω × List (Recorded σ))) : List β :=
  s.world.2.map (fun n => view n.node) ++ options.room s.count (come s.phase s.it.node)

variable {P : σ → Prop} {view : σ → β} {come : Phase → σ → List β}

/-- A visit to the first of what is to come keeps the account. -/
theorem account_visited {s : Stand (Recorded σ) (ω × List (Recorded σ))} {n : Recorded σ}
    (hr : r.options.reached s.count = false)
    (hcome : come s.phase s.it.node =
      view n.node :: come ((r.watched visit).phaseAfter s.phase) n.node) :
    account r.options view come ((r.watched visit).visited s n) =
      account r.options view come s := by
  have hw : ((r.watched visit).visited s n).world.2 = s.world.2 ++ [n] := rfl
  rw [account, account, hcome, RunOptions.room_cons hr, hw, List.map_append, List.append_assoc]
  rfl

/-- **A turn that goes on keeps the account.** -/
theorem account_of_turn (hu : Operator.Unrolls r.options.paths P view come)
    {s s' : Stand (Recorded σ) (ω × List (Recorded σ))} (hs : P s.it.node)
    (hclear : (r.watched visit).handed s = .clear) (ht : (r.watched visit).turn s = .go s') :
    P s'.it.node ∧ account r.options view come s' = account r.options view come s := by
  obtain ⟨hr, -, -⟩ := Loop.turn_eq_go ht
  obtain ⟨phase, it, w, n⟩ := s
  rcases watched_turn_clear hclear ht with ⟨hm, hs'⟩ | ⟨rfl, hm, hs'⟩
  · rw [hs']
    cases phase with
    | results =>
      obtain ⟨hit, hcome⟩ := hu.next_moved hs hm
      exact ⟨hit, account_visited hr hcome⟩
    | paths =>
      obtain ⟨hit, hcome⟩ := hu.nextPath_moved hs hm
      exact ⟨hit, account_visited hr hcome⟩
  · obtain ⟨hit, hcome⟩ := hu.nextPath_over hs hm
    rw [hs']
    refine ⟨hit, ?_⟩
    rw [account, account, hcome]
    rfl

/-- **The turn that ends a run leaves nothing of the account to come.** -/
theorem account_of_halt (hu : Operator.Unrolls r.options.paths P view come)
    {s : Stand (Recorded σ) (ω × List (Recorded σ))}
    {h : Halt (Recorded σ) (ω × List (Recorded σ))} (hs : P s.it.node)
    (hclear : r.options.reached s.count = false →
      (r.watched visit).seen s = .clear ∧ (r.watched visit).handed s = .clear)
    (ht : (r.watched visit).turn s = .halt h) :
    h.world.2.map (fun n => view n.node) = account r.options view come s := by
  obtain ⟨phase, it, w, n⟩ := s
  rcases Loop.turn_eq_halt ht with ⟨hr, rfl⟩ | ⟨hr, e, he, rfl⟩ | ⟨hr, -, hno, hp, rfl⟩
  · have hr' : r.options.reached n = true := hr
    rw [account, RunOptions.room_of_reached hr', List.append_nil]
    rfl
  · rw [(hclear hr).1] at he
    cases he
  · subst hp
    rw [Loop.tried, Recorded.move_eq, (hclear hr).2] at hno ⊢
    dsimp only at hno ⊢
    rcases hm : Operator.move .results .clear it.node with ⟨yes, c⟩
    rw [hm] at hno
    obtain rfl : yes = false := hno
    rw [account, hu.next_over hs hm, RunOptions.room_nil, List.append_nil]
    rfl

variable {it : σ} {w : ω}

/-- Along a run whose context does not fire, the account stays what it is at the start. -/
theorem account_of_reaches (hu : Operator.Unrolls r.options.paths P view come) (hit : P it)
    (hclear : (r.watched visit).Unfired (watchedStart it w))
    {s : Stand (Recorded σ) (ω × List (Recorded σ))}
    (hs : (r.watched visit).Reaches (watchedStart it w) s) :
    P s.it.node ∧ account r.options view come s = r.options.cut (come .results it) := by
  have hstart : account r.options view come (watchedStart it w : Stand (Recorded σ) _) =
      r.options.cut (come .results it) := rfl
  refine hs.invariant (P := fun t => P t.it.node ∧ account r.options view come t = _) ?_
    ⟨hit, hstart⟩
  rintro t t' ht ⟨hnode, ha⟩ hturn
  obtain ⟨hr, -, -⟩ := Loop.turn_eq_go hturn
  obtain ⟨hnode', ha'⟩ := account_of_turn hu hnode (hclear t ht hr).2 hturn
  exact ⟨hnode', ha'.trans ha⟩

end Run

/-- **A whole run sees what was to come of its node at the start**, as far as its limit leaves
room. -/
theorem Operator.Unrolls.visits_of_haltFrom? {σ α ω β : Type} [Operator σ α] {r : Run ω}
    {visit : σ → ω → ω} {P : σ → Prop} {view : σ → β} {come : Phase → σ → List β}
    (hu : Operator.Unrolls r.options.paths P view come) {it : σ} {w : ω} (hit : P it)
    (hclear : (r.watched visit).Unfired (Run.watchedStart it w)) {turns : Nat}
    {e : Halt (Recorded σ) (ω × List (Recorded σ))}
    (he : (r.watched visit).haltFrom? turns (Run.watchedStart it w) = some e) :
    e.world.2.map (fun n => view n.node) = r.options.cut (come .results it) := by
  obtain ⟨s, hs, ht⟩ := Loop.reaches_of_haltFrom? he
  obtain ⟨hnode, ha⟩ := Run.account_of_reaches hu hit hclear hs
  exact (Run.account_of_halt hu hnode (hclear s hs) ht).trans ha

end QueryPlan
