import QueryPlan.Proofs.Tree.Releasing

/-!
# Well-placed cursors

A leaf keeps a number of the row it stands on and looks its row up by that number whenever
it is asked for a result, a way of reaching it or its bindings.  The number is there only
while the state says so, and there is always a row behind it.

* `RowSet.WellPlaced` — what the fields of a cursor have to do with one another and with the
  leaf's rows.
* `RowSet.wellPlaced_after` — every request keeps it, whatever its context shows.
* `RowSet.closed_after` — only a release closes a leaf, and it always does.
* `Cursor.leaf_stays_well_placed` — **at any time a leaf's cursor is well placed, and released
  once or never**; `Cursor.wellPlaced_of_leads` says it of every leaf of a tree.
-/

namespace QueryPlan

variable {α : Type}

/-! ## The invariant -/

/-- The cursor stands on that row, and on a witness of it unless it has none. -/
structure RowSet.StandsOn (leaf : RowSet α) (c : RowCursor) (i : Nat) (row : Row α) : Prop where
  /-- It is the row of that number. -/
  row_eq : leaf.rows[i]? = some row
  /-- The row that comes next is the one behind it. -/
  index_eq : i + 1 = c.index
  /-- The path cursor has not passed the last witness. -/
  path_lt : c.path = 0 ∨ c.path < row.witnesses.length

/-- What the fields of a leaf's cursor have to do with one another: besides what makes it sound,
which is that it has an error exactly if it has failed, and then stands on no row. -/
structure RowSet.WellPlaced (leaf : RowSet α) (c : RowCursor) : Prop extends c.Sound where
  /-- The row that comes next is one of the leaf's, or there is none. -/
  index_le : c.index ≤ leaf.rows.length
  /-- All rows before it have been produced. -/
  produced_eq : c.progress.produced = c.index
  /-- There is a current row exactly if the state says so … -/
  current_iff : c.current.isSome = true ↔ c.progress.state = .positioned
  /-- … and then it is one of the leaf's. -/
  standsOn : ∀ i, c.current = some i → ∃ row, leaf.StandsOn c i row
  /-- No more tests said yes than were made. -/
  hits_le : c.containsHits ≤ c.containsCalls

namespace RowSet

variable {leaf : RowSet α} {c : RowCursor}

theorem StandsOn.currentRow_eq {i : Nat} {row : Row α} (h : leaf.StandsOn c i row)
    (hi : c.current = some i) : leaf.currentRow c = some row := by
  rw [currentRow, hi]
  exact h.row_eq

/-- A sound cursor that stands on no row is well placed if its counts are right. -/
theorem wellPlaced_of_off (hsound : c.Sound) (hcurrent : c.current = none)
    (hstate : c.progress.state.isPositioned = false) (hindex : c.index ≤ leaf.rows.length)
    (hproduced : c.progress.produced = c.index) (hhits : c.containsHits ≤ c.containsCalls) :
    leaf.WellPlaced c where
  toSound := hsound
  index_le := hindex
  produced_eq := hproduced
  current_iff := by
    refine iff_of_false (by simp [hcurrent]) fun hpos => ?_
    rw [hpos] at hstate
    cases hstate
  standsOn i hi := by simp [hcurrent] at hi
  hits_le := hhits

theorem wellPlaced_start (leaf : RowSet α) : leaf.WellPlaced .start :=
  wellPlaced_of_off RowCursor.sound_start rfl rfl (Nat.zero_le _) rfl (Nat.le_refl _)

namespace WellPlaced

/-- Where there is a number there is a row: no look-up of the current row fails. -/
theorem isSome_currentRow (h : leaf.WellPlaced c) :
    (leaf.currentRow c).isSome = c.current.isSome := by
  cases hi : c.current with
  | none => rw [currentRow, hi]; rfl
  | some i =>
    obtain ⟨row, hrow⟩ := h.standsOn i hi
    rw [hrow.currentRow_eq hi]
    rfl

/-! ## Requests -/

theorem fail (h : leaf.WellPlaced c) (e : QueryError) : leaf.WellPlaced (c.fail e) :=
  wellPlaced_of_off (RowCursor.sound_fail c e) rfl rfl h.index_le h.produced_eq h.hits_le

theorem spent (h : leaf.WellPlaced c) (ht : c.progress.state.isTerminal = false) :
    leaf.WellPlaced c.spent :=
  wellPlaced_of_off (h.toSound.spent ht) rfl rfl h.index_le h.produced_eq h.hits_le

theorem rewind (h : leaf.WellPlaced c) : leaf.WellPlaced c.rewind := by
  refine wellPlaced_of_off h.toSound.rewind rfl ?_ (Nat.zero_le _) rfl h.hits_le
  rw [RowCursor.state_rewind]
  split <;> rfl

theorem onto (h : leaf.WellPlaced c) (ht : c.progress.state.isTerminal = false)
    (hi : c.index < leaf.rows.length) : leaf.WellPlaced c.onto where
  toSound := h.toSound.onto ht
  index_le := hi
  produced_eq := congrArg (· + 1) h.produced_eq
  current_iff := iff_of_true rfl rfl
  standsOn i hcurrent := by
    obtain rfl : c.index = i := Option.some.inj hcurrent
    exact ⟨leaf.rows[c.index], List.getElem?_eq_getElem hi, rfl, Or.inl rfl⟩
  hits_le := h.hits_le

theorem along (h : leaf.WellPlaced c) {row : Row α} (hrow : leaf.currentRow c = some row)
    (hp : c.path + 1 < row.witnesses.length) : leaf.WellPlaced c.along where
  toSound := ⟨h.failed_iff, h.parked⟩
  index_le := h.index_le
  produced_eq := h.produced_eq
  current_iff := h.current_iff
  standsOn i hi := by
    obtain ⟨row', hon⟩ := h.standsOn i hi
    -- the row whose witnesses the step has counted is the one that the cursor stands on
    obtain rfl : row' = row := Option.some.inj ((hon.currentRow_eq hi).symm.trans hrow)
    exact ⟨row', hon.row_eq, hon.index_eq, Or.inr hp⟩
  hits_le := h.hits_le

/-- A cursor in the same place is as well placed, if its own counts are right. -/
theorem of_alike {c' : RowCursor} (h : leaf.WellPlaced c) (halike : c'.Alike c)
    (hhits : c'.containsHits ≤ c'.containsCalls) : leaf.WellPlaced c' where
  failed_iff := by
    rw [halike.progress, halike.err]
    exact h.failed_iff
  parked := by
    rw [halike.progress, halike.current]
    exact h.parked
  index_le := by
    rw [halike.index]
    exact h.index_le
  produced_eq := by
    rw [halike.progress, halike.index]
    exact h.produced_eq
  current_iff := by
    rw [halike.current, halike.progress]
    exact h.current_iff
  standsOn i hi := by
    rw [halike.current] at hi
    obtain ⟨row, hon⟩ := h.standsOn i hi
    exact ⟨row, hon.row_eq, hon.index_eq.trans halike.index.symm, halike.path ▸ hon.path_lt⟩
  hits_le := hhits

theorem tested (h : leaf.WellPlaced c) (yes : Bool) : leaf.WellPlaced (c.tested yes) := by
  refine h.of_alike ⟨rfl, rfl, rfl, rfl, rfl⟩ ?_
  cases yes with
  | true => exact Nat.succ_le_succ h.hits_le
  | false => exact Nat.le_succ_of_le h.hits_le

theorem released (h : leaf.WellPlaced c) (n : Nat) : leaf.WellPlaced (c.released n) :=
  h.of_alike ⟨rfl, rfl, rfl, rfl, rfl⟩ h.hits_le

end WellPlaced

/-- **Every request keeps a leaf's cursor well placed.** -/
theorem wellPlaced_after [BEq α] (q : Request α) (h : leaf.WellPlaced c) :
    leaf.WellPlaced (leaf.after q c) := by
  cases q with
  | next s =>
    have hends := leaf.next_ends s c
    show leaf.WellPlaced (leaf.next s c).2
    generalize leaf.next s c = answer at hends ⊢
    cases hends with
    | terminal _ => exact h
    | fired _ _ => exact h.fail _
    | spent ht _ _ => exact h.spent ht
    | moved ht _ hi => exact h.onto ht hi
  | nextPath s =>
    have hends := leaf.nextPath_ends s c
    show leaf.WellPlaced (leaf.nextPath s c).2
    generalize leaf.nextPath s c = answer at hends ⊢
    cases hends with
    | off _ => exact h
    | fired _ _ => exact h.fail _
    | spent _ _ _ => exact h
    | moved hrow _ hp => exact h.along hrow hp
  | contains s x =>
    have hends := leaf.contains_ends s x c
    show leaf.WellPlaced (leaf.contains s x c).2
    generalize leaf.contains s x c = answer at hends ⊢
    cases hends with
    | fired _ => exact h.fail _
    | tested yes _ => exact h.tested yes
  | rewind => exact h.rewind
  | close =>
    obtain ⟨n, hn⟩ := c.exists_released
    show leaf.WellPlaced c.close.2
    rw [hn]
    exact h.released n
  | read => exact h

/-! ## Marks of release -/

/-- **Only a release closes a leaf.** -/
theorem closed_after [Item α] (leaf : RowSet α) (q : Request α) (c : RowCursor) :
    (leaf.after q c).closed = true ↔ c.closed = true ∨ q = .close := by
  by_cases hq : q = .close
  · subst hq
    obtain ⟨n, hn⟩ := c.exists_released
    have hclosed : c.close.2.closed = true := by rw [hn]; rfl
    exact iff_of_true hclosed (Or.inr rfl)
  · rw [(leaf.marks_after hq c).2, or_iff_left hq]

/-! ## Histories -/

/-- What requests make of a leaf's cursor, one after the other. -/
def afterAll [BEq α] (leaf : RowSet α) (qs : List (Request α)) (c : RowCursor) : RowCursor :=
  qs.foldl (fun c q => leaf.after q c) c

@[simp] theorem afterAll_cons [BEq α] (leaf : RowSet α) (q : Request α) (qs : List (Request α))
    (c : RowCursor) : leaf.afterAll (q :: qs) c = leaf.afterAll qs (leaf.after q c) := rfl

/-- What every request keeps, a history keeps. -/
theorem afterAll_invariant [BEq α] {P : RowCursor → Prop}
    (hstep : ∀ q c, P c → P (leaf.after q c)) (qs : List (Request α)) :
    ∀ {c : RowCursor}, P c → P (leaf.afterAll qs c) := by
  induction qs with
  | nil => exact id
  | cons q qs ih => exact fun h => ih (hstep q _ h)

/-- A leaf is closed if there was a release in its history. -/
theorem closed_afterAll [Item α] (leaf : RowSet α) (qs : List (Request α)) :
    ∀ c : RowCursor, (leaf.afterAll qs c).closed = true ↔ c.closed = true ∨ .close ∈ qs := by
  induction qs with
  | nil => intro c; simp [afterAll]
  | cons q qs ih =>
    intro c
    rw [afterAll_cons, ih, closed_after, List.mem_cons, or_assoc, eq_comm (a := q)]

end RowSet

namespace Cursor

variable [Item α]

theorem afterAll_fixed (uid : Uid) (leaf : RowSet α) (qs : List (Request α)) :
    ∀ c : RowCursor, Request.afterAll qs (.fixed c : Cursor (.fixed uid leaf : BasicPlan α)) =
      .fixed (leaf.afterAll qs c) := by
  induction qs with
  | nil => exact fun _ => rfl
  | cons q qs ih =>
    intro c
    rw [Request.afterAll_cons, after_fixed_eq, ih, RowSet.afterAll_cons]

/-- **A leaf's cursor stays well placed.**  Whatever was asked of a newly built leaf, in whatever
order and under whatever contexts, the fields of its cursor fit one another and its rows, so that
no look-up of the current row ever fails; and it was released once if it was closed, however
often, and never if not. -/
theorem leaf_stays_well_placed (uid : Uid) (leaf : RowSet α) (qs : List (Request α)) :
    ∃ c, Request.afterAll qs (start (.fixed uid leaf : BasicPlan α)) = .fixed c ∧
      leaf.WellPlaced c ∧ (leaf.currentRow c).isSome = c.current.isSome ∧
      (.close ∈ qs → c.releases = 1) ∧ (.close ∉ qs → c.releases = 0) := by
  have hplaced : leaf.WellPlaced (leaf.afterAll qs .start) :=
    RowSet.afterAll_invariant (fun q _ h => RowSet.wellPlaced_after q h) qs leaf.wellPlaced_start
  have honce : (leaf.afterAll qs .start).ReleasedOnce :=
    RowSet.afterAll_invariant (fun q _ h => leaf.releasedOnce_after q h) qs
      RowCursor.releasedOnce_start
  have hclosed : (leaf.afterAll qs .start).closed = true ↔ .close ∈ qs := by
    rw [leaf.closed_afterAll qs .start]
    exact or_iff_right Bool.false_ne_true
  refine ⟨leaf.afterAll qs .start, afterAll_fixed uid leaf qs .start, hplaced,
    hplaced.isSome_currentRow, fun hmem => ?_, fun hmem => ?_⟩
  · exact honce.trans (if_pos (hclosed.2 hmem))
  · exact honce.trans (if_neg fun h => hmem (hclosed.1 h))

/-- A leaf with two rows, the first of which is reached in two ways. -/
def pairOfRows : RowSet Ref := .ofRows [⟨⟨[1]⟩, [⟨[7]⟩, ⟨[8]⟩]⟩, ⟨⟨[2]⟩, []⟩]

/-- To the second row and back, with a release on the way, and to the last witness of the
first. -/
def roundTrip : List (Request Ref) :=
  [.next .clear, .next .clear, .close, .contains .clear ⟨[2]⟩, .rewind, .next .clear,
    .nextPath .clear]

theorem leaf_stays_well_placed_roundTrip :
    ∃ c, Request.afterAll roundTrip (start (.fixed ⟨0⟩ pairOfRows : BasicPlan Ref)) = .fixed c ∧
      c.current = some 0 ∧ c.path = 1 ∧ c.containsHits = 1 ∧ c.releases = 1 ∧
      pairOfRows.WellPlaced c ∧ ∃ row, pairOfRows.StandsOn c 0 row := by
  obtain ⟨c, hc, hplaced, -, hreleased, -⟩ := leaf_stays_well_placed ⟨0⟩ pairOfRows roundTrip
  have hmem : .close ∈ roundTrip := by simp [roundTrip]
  have hwhere : c.current = some 0 ∧ c.path = 1 ∧ c.containsHits = 1 := by
    cases hc
    exact ⟨rfl, rfl, rfl⟩
  obtain ⟨hcurrent, hpath, hhits⟩ := hwhere
  exact ⟨c, hc, hcurrent, hpath, hhits, hreleased hmem, hplaced, hplaced.standsOn 0 hcurrent⟩

/-- At any time of a tree's life all its leaves are well placed. -/
theorem wellPlaced_of_leads {p : BasicPlan α} {c : Cursor p}
    (hc : Operator.Leads (fun _ : Request α => True) (start p) c) :
    Everywhere RowSet.WellPlaced (leaves c) :=
  hc.invariant (P := fun c => Everywhere RowSet.WellPlaced (leaves c))
    (fun _ _ _ h => everywhere_after (fun q' _ _ _ h => RowSet.wellPlaced_after q' h) h)
    (everywhere_start RowSet.wellPlaced_start p)

end Cursor

end QueryPlan
