import QueryPlan.Proofs.Run.History
import QueryPlan.Proofs.Tree.AnyContext

/-!
# Requests to a tree, node by node

What any request at all makes of a node of a tree, as one inversion for each kind of node
that changes.  What requests keep is proved by splitting along these.

* `Cursor.after_fixed` — a leaf changes in one of the ways of `RowSet.Makes`.
* `Cursor.after_probe` — every request but a step goes to the first child of an intersection,
  perhaps to some of the others (`Cursor.Touched`), and leaves the error of the intersection
  alone.
-/

namespace QueryPlan

variable {α : Type}

/-! ## Leaves -/

theorem RowCursor.progress_rewind (c : RowCursor) : c.rewind.progress =
    ⟨if c.progress.state = .failed then .failed else .unstarted, 0⟩ := rfl

theorem RowCursor.state_rewind (c : RowCursor) : c.rewind.progress.state =
    if c.progress.state = .failed then .failed else .unstarted := rfl

/-- The cursor after the leaf's resources were released. -/
def RowCursor.released (c : RowCursor) (releases : Nat) : RowCursor :=
  { c with releases, closed := true }

theorem RowCursor.close_snd (c : RowCursor) : c.close.2 =
    if c.closed then c else { c with closed := true, releases := c.releases + 1 } := by
  unfold close
  dsimp only
  split <;> rfl

theorem RowCursor.exists_released (c : RowCursor) : ∃ n, c.close.2 = c.released n := by
  rw [close_snd]
  by_cases hc : c.closed = true
  · refine ⟨c.releases, ?_⟩
    rw [if_pos hc, released, ← hc]
  · exact ⟨c.releases + 1, if_neg hc⟩

/-- What a request can make of a leaf's cursor. -/
inductive RowSet.Makes (leaf : RowSet α) (c : RowCursor) : Request α → RowCursor → Prop where
  /-- Nothing new; a membership test leaves a mark, and so does a rewind. -/
  | same {q : Request α} (hq : q.KeepsPlace) (htest : ∀ s x, q ≠ .contains s x) :
      Makes leaf c q c
  /-- The context stops a step. -/
  | stopped {s : Signal} {e : QueryError} (ht : c.progress.state.isTerminal = false)
      (he : s.error? = some e) : Makes leaf c (.next s) (c.fail e)
  /-- The rows run out. -/
  | spent (ht : c.progress.state.isTerminal = false) (hi : leaf.rows.length ≤ c.index) :
      Makes leaf c (.next .clear) c.spent
  /-- A step goes to a row. -/
  | onto (ht : c.progress.state.isTerminal = false) (hi : c.index < leaf.rows.length) :
      Makes leaf c (.next .clear) c.onto
  /-- The context stops a path step. -/
  | stoppedPath {s : Signal} {e : QueryError} (hr : c.current.isSome = true)
      (he : s.error? = some e) : Makes leaf c (.nextPath s) (c.fail e)
  /-- A path step goes to a witness. -/
  | along (hr : c.current.isSome = true) : Makes leaf c (.nextPath .clear) c.along
  /-- The context stops a membership test. -/
  | stoppedTest {s : Signal} {x : α} {e : QueryError} (he : s.error? = some e) :
      Makes leaf c (.contains s x) (c.fail e)
  /-- A membership test is counted. -/
  | tested {x : α} (yes : Bool) : Makes leaf c (.contains .clear x) (c.tested yes)
  /-- The cursor goes back to the start. -/
  | rewound : Makes leaf c .rewind c.rewind
  /-- The resources are released. -/
  | released (n : Nat) : Makes leaf c .close (c.released n)

namespace Cursor

theorem isSome_current {leaf : RowSet α} {c : RowCursor} {row : Row α}
    (h : leaf.currentRow c = some row) : c.current.isSome = true := by
  obtain ⟨i, hi, -⟩ := Option.bind_eq_some_iff.1 h
  rw [hi]
  rfl

variable [Item α]

/-- **What a request makes of a leaf.** -/
theorem after_fixed (uid : Uid) (leaf : RowSet α) (q : Request α) (c : RowCursor) :
    ∃ c', q.after (.fixed c : Cursor (.fixed uid leaf : BasicPlan α)) = .fixed c' ∧
      leaf.Makes c q c' := by
  cases q with
  | next s =>
    refine ⟨(leaf.next s c).2, rfl, ?_⟩
    have hends := leaf.next_ends s c
    generalize leaf.next s c = answer at hends ⊢
    cases hends with
    | terminal _ => exact .same trivial nofun
    | fired ht he => exact .stopped ht he
    | spent ht hs hi =>
      rw [hs]
      exact .spent ht hi
    | moved ht hs hi =>
      rw [hs]
      exact .onto ht hi
  | nextPath s =>
    refine ⟨(leaf.nextPath s c).2, rfl, ?_⟩
    have hends := leaf.nextPath_ends s c
    generalize leaf.nextPath s c = answer at hends ⊢
    cases hends with
    | off _ => exact .same trivial nofun
    | fired hr he => exact .stoppedPath (isSome_current hr) he
    | spent _ _ _ => exact .same trivial nofun
    | moved hr hs _ =>
      rw [hs]
      exact .along (isSome_current hr)
  | contains s x =>
    refine ⟨(leaf.contains s x c).2, rfl, ?_⟩
    have hends := leaf.contains_ends s x c
    generalize leaf.contains s x c = answer at hends ⊢
    cases hends with
    | fired he => exact .stoppedTest he
    | tested yes hs =>
      rw [hs]
      exact .tested yes
  | rewind => exact ⟨c.rewind, rfl, .rewound⟩
  | close =>
    obtain ⟨n, hn⟩ := c.exists_released
    exact ⟨c.close.2, rfl, hn ▸ .released n⟩
  | read => exact ⟨c, rfl, .same trivial nofun⟩

/-! ## Intersections -/

/-- What a request makes of the other children of an intersection: they get it one after the
other, and those at the end of the list perhaps not. -/
inductive Touched (q : Request α) : {ps : List (BasicPlan α)} → Cursors ps → Cursors ps → Prop where
  /-- None of them got it. -/
  | none {ps : List (BasicPlan α)} (cs : Cursors ps) : Touched q cs cs
  /-- The first got it, and so may have others. -/
  | cons {p : BasicPlan α} {ps : List (BasicPlan α)} (c : Cursor p) {cs cs' : Cursors ps}
      (h : Touched q cs cs') : Touched q (.cons c cs : Cursors (p :: ps)) (.cons (q.after c) cs')

theorem touched_containsAll (s : Signal) (x : α) {ps : List (BasicPlan α)} :
    ∀ cs : Cursors ps, Touched (.contains s x) cs (containsAll s x cs).2 := by
  induction ps with
  | nil =>
    intro cs
    cases cs
    exact .none _
  | cons p ps ih =>
    intro cs
    cases cs with
    | cons c cs =>
      have hfirst : (contains s x c).2 = (Request.contains s x).after c := rfl
      rw [containsAll_cons]
      rcases hc : contains s x c with ⟨_ | _, c'⟩
      · rw [hc] at hfirst
        rw [show c' = (Request.contains s x).after c from hfirst]
        exact .cons c (.none cs)
      · rw [hc] at hfirst
        rw [show c' = (Request.contains s x).after c from hfirst]
        exact .cons c (ih cs)

theorem touched_rewindAll {ps : List (BasicPlan α)} :
    ∀ cs : Cursors ps, Touched (.rewind : Request α) cs (rewindAll cs) := by
  induction ps with
  | nil =>
    intro cs
    cases cs
    exact .none _
  | cons p ps ih =>
    intro cs
    cases cs with
    | cons c cs => exact .cons c (ih cs)

theorem touched_closeAll {ps : List (BasicPlan α)} :
    ∀ cs : Cursors ps, Touched (.close : Request α) cs (closeAll cs).2 := by
  induction ps with
  | nil =>
    intro cs
    cases cs
    exact .none _
  | cons p ps ih =>
    intro cs
    cases cs with
    | cons c cs => exact .cons c (ih cs)

/-- **What a request makes of an intersection**, unless it is a step. -/
theorem after_probe (uid : Uid) {p : BasicPlan α} {os : List (BasicPlan α)} {q : Request α}
    (hq : ∀ s, q ≠ .next s) (e : Option QueryError) (c : Cursor p) (cs : Cursors os) :
    ∃ cs', q.after (.probe e c cs : Cursor (.probe uid p os)) = .probe e (q.after c) cs' ∧
      Touched q cs cs' := by
  cases q with
  | next s => exact absurd rfl (hq s)
  | nextPath s => exact ⟨cs, rfl, .none cs⟩
  | contains s x =>
    show ∃ cs', (contains s x (.probe e c cs : Cursor (.probe uid p os))).2 =
      .probe e (contains s x c).2 cs' ∧ _
    rw [contains_probe]
    rcases contains s x c with ⟨_ | _, c'⟩
    · exact ⟨cs, rfl, .none cs⟩
    · exact ⟨(containsAll s x cs).2, rfl, touched_containsAll s x cs⟩
  | rewind => exact ⟨rewindAll cs, rfl, touched_rewindAll cs⟩
  | close => exact ⟨(closeAll cs).2, rfl, touched_closeAll cs⟩
  | read => exact ⟨cs, rfl, .none cs⟩

end Cursor

end QueryPlan
