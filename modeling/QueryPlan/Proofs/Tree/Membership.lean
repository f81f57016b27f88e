import QueryPlan.Proofs.Data.Equality
import QueryPlan.Proofs.Run.History
import QueryPlan.Proofs.Tree.Copies

/-!
# Testing and enumerating

A tree tells its results in two ways: it is asked about a candidate, or a run goes through
them.  Both tell the same as long as `==` is symmetric and transitive on the values in the
plan and the candidate, wherever the cursors stand that are asked.  Reflexivity is not
needed: a candidate that does not equal itself is simply nobody's result.

* `Coherent` — symmetric and transitive on a list of things; all references and all values
  are (`coherent_of_partialEquivBEq`).
* `Plan.has_iff_mem_rows` — the members of a plan are what its rows hold.
* `Cursor.contains_iff_run_visits` — so a test answers what a run would visit.
-/

namespace QueryPlan

/-! ## Equality of items -/

/-- Is `==` symmetric and transitive on these things? -/
structure Coherent {α : Type} [BEq α] (xs : List α) : Prop where
  /-- Equality goes both ways. -/
  symm : ∀ {a b}, a ∈ xs → b ∈ xs → (a == b) = true → (b == a) = true
  /-- Equality goes on. -/
  trans : ∀ {a b c}, a ∈ xs → b ∈ xs → c ∈ xs → (a == b) = true → (b == c) = true →
    (a == c) = true

theorem coherent_of_partialEquivBEq {α : Type} [BEq α] [PartialEquivBEq α] (xs : List α) :
    Coherent xs where
  symm _ _ h := BEq.symm h
  trans _ _ _ h h' := BEq.trans h h'

namespace Plan

variable {α : Type}

mutual

/-- The values of all leaves of a plan. -/
def values : BasicPlan α → List α
  | .null _ => []
  | .error _ _ => []
  | .fixed _ leaf => leaf.rows.map Row.value
  | .probe _ p os => values p ++ allValues os

/-- The values of all leaves of several plans. -/
def allValues : List (BasicPlan α) → List α
  | [] => []
  | p :: ps => values p ++ allValues ps

end

theorem values_probe {uid : Uid} {p : BasicPlan α} {os : List (BasicPlan α)} :
    values (.probe uid p os) = values p ++ allValues os := rfl

theorem values_subset_allValues {p : BasicPlan α} {ps : List (BasicPlan α)} (h : p ∈ ps) :
    p.values ⊆ allValues ps := by
  induction ps with
  | nil => cases h
  | cons q ps ih =>
    have hcons : allValues (q :: ps) = q.values ++ allValues ps := rfl
    rw [hcons]
    rcases List.mem_cons.1 h with rfl | h
    · exact List.subset_append_left _ _
    · exact List.Subset.trans (ih h) (List.subset_append_right _ _)

variable [Item α]

/-- Equal things are members of the same plans. -/
theorem has_of_beq {xs : List α} (hxs : Coherent xs) {a b : α} (ha : a ∈ xs) (hb : b ∈ xs)
    (hab : (a == b) = true) {p : BasicPlan α} (hp : p.values ⊆ xs) (h : p.has a = true) :
    p.has b = true := by
  induction p using BasicPlan.induct with
  | null uid => cases h
  | error uid e => cases h
  | fixed uid leaf =>
    have hany : leaf.rows.any (·.value == a) = true := h
    obtain ⟨row, hrow, heq⟩ := List.any_eq_true.1 hany
    have hvalue : row.value ∈ xs := hp (List.mem_map_of_mem hrow)
    exact List.any_eq_true.2 ⟨row, hrow, hxs.trans hvalue ha hb heq hab⟩
  | probe uid p os ih ihos =>
    rw [values_probe, List.append_subset] at hp
    rw [has_probe, Bool.and_eq_true, allHave_eq_true_iff] at h ⊢
    refine ⟨ih hp.1 h.1, fun o ho => ?_⟩
    exact ihos o ho (List.Subset.trans (values_subset_allValues ho) hp.2) (h.2 o ho)

theorem value_mem_values {p : BasicPlan α} {row : Row α} (h : row ∈ p.rows) :
    row.value ∈ p.values := by
  induction p using BasicPlan.induct with
  | null uid => cases h
  | error uid e => cases h
  | fixed uid leaf => exact List.mem_map_of_mem h
  | probe uid p os ih _ =>
    rw [rows_probe] at h
    exact List.mem_append_left _ (ih (List.mem_filter.1 h).1)

/-- **The members of a plan are what its rows hold.** -/
theorem has_iff_mem_rows {xs : List α} (hxs : Coherent xs) {x : α} (hx : x ∈ xs)
    {p : BasicPlan α} (hp : p.values ⊆ xs) :
    p.has x = true ↔ ∃ row ∈ p.rows, (row.value == x) = true := by
  induction p using BasicPlan.induct with
  | null uid => exact ⟨nofun, fun ⟨_, h, _⟩ => by cases h⟩
  | error uid e => exact ⟨nofun, fun ⟨_, h, _⟩ => by cases h⟩
  | fixed uid leaf => exact List.any_eq_true
  | probe uid p os ih _ =>
    rw [values_probe, List.append_subset] at hp
    have hos (o : BasicPlan α) (ho : o ∈ os) : o.values ⊆ xs :=
      List.Subset.trans (values_subset_allValues ho) hp.2
    have hvalue {row : Row α} (hrow : row ∈ p.rows) : row.value ∈ xs :=
      hp.1 (value_mem_values hrow)
    rw [has_probe, Bool.and_eq_true, allHave_eq_true_iff, ih hp.1, rows_probe]
    constructor
    · rintro ⟨⟨row, hrow, heq⟩, hall⟩
      have heq' : (x == row.value) = true := hxs.symm (hvalue hrow) hx heq
      have hothers : allHave row.value os = true := by
        refine allHave_eq_true_iff.2 fun o ho => ?_
        exact has_of_beq hxs hx (hvalue hrow) heq' (hos o ho) (hall o ho)
      exact ⟨row, List.mem_filter.2 ⟨hrow, hothers⟩, heq⟩
    · rintro ⟨row, hmem, heq⟩
      obtain ⟨hrow, hothers⟩ := List.mem_filter.1 hmem
      refine ⟨⟨row, hrow, heq⟩, fun o ho => ?_⟩
      exact has_of_beq hxs (hvalue hrow) hx heq (hos o ho) (allHave_eq_true_iff.1 hothers o ho)

omit [Item α] in
/-- A run visits the values of its rows and nothing else. -/
theorem mem_visitsOf {paths : Bool} {rows : List (Row α)} {x : α} :
    x ∈ visitsOf paths rows ↔ ∃ row ∈ rows, row.value = x := by
  have hpos (row : Row α) : (if paths then row.paths else 1) ≠ 0 := by
    have hpaths : 1 ≤ row.paths := Nat.le_max_left 1 _
    split <;> omega
  rw [visitsOf, List.mem_flatMap]
  constructor
  · rintro ⟨row, hrow, hx⟩
    exact ⟨row, hrow, (List.eq_of_mem_replicate hx).symm⟩
  · rintro ⟨row, hrow, rfl⟩
    exact ⟨row, hrow, List.mem_replicate.2 ⟨hpos row, rfl⟩⟩

end Plan

namespace Cursor

variable {α ω : Type} [Item α]

/-- **A test answers what a run would visit.**  Wherever the cursors of a tree stand, a test
under a context that shows nothing says yes exactly if a run without a limit over a newly
built copy, under such a context too, visits something equal to the candidate. -/
theorem contains_iff_run_visits {p p' : BasicPlan α} (hcopy : Plan.IsCopy p p') {x : α}
    (hx : Coherent (x :: p.values)) (c : Cursor p) (r : Run ω) (hlim : r.options.limit = none)
    (visit : Cursor p' → ω → ω) (w : ω)
    (hclear : (r.loop visit).Unfired (.start (start p') w)) {turns : Nat}
    (hturns : turnsFor (start p') ≤ turns) :
    ∃ rep, r.observed visit turns (start p') w = some rep ∧
      ((Operator.contains .clear x c).1 = true ↔
        ∃ y, some y ∈ rep.world.2.map Operator.result ∧ (y == x) = true) := by
  obtain ⟨rep, hrep, hvisits, -, -⟩ := Run.observed_start hclear hturns
  rw [RunOptions.cut_of_limit_eq_none hlim] at hvisits
  have hhas : (Operator.contains .clear x c).1 = p.has x := (contains_clear x c).1
  have hvisited (y : α) : y ∈ p'.visits r.options.paths ↔ ∃ row ∈ p'.rows, row.value = y :=
    Plan.mem_visitsOf
  have hmem (y : α) :
      some y ∈ rep.world.2.map Operator.result ↔ ∃ row ∈ p.rows, row.value = y := by
    rw [hvisits, hcopy.rows, ← hvisited]
    simp
  refine ⟨rep, hrep, ?_⟩
  rw [hhas, Plan.has_iff_mem_rows hx List.mem_cons_self (List.subset_cons_self _ _)]
  constructor
  · rintro ⟨row, hrow, heq⟩
    exact ⟨row.value, (hmem _).2 ⟨row, hrow, rfl⟩, heq⟩
  · rintro ⟨y, hy, heq⟩
    obtain ⟨row, hrow, rfl⟩ := (hmem y).1 hy
    exact ⟨row, hrow, heq⟩

/-- An intersection of two values with one of them. -/
def fives : BasicPlan Value :=
  .probe ⟨2⟩ (.fixed ⟨0⟩ (.ofValues [.bool true, .int 5])) [.fixed ⟨1⟩ (.ofValues [.int 5])]

/-- A copy of it, built later. -/
def fivesAgain : BasicPlan Value :=
  .probe ⟨5⟩ (.fixed ⟨3⟩ (.ofValues [.bool true, .int 5])) [.fixed ⟨4⟩ (.ofValues [.int 5])]

theorem contains_iff_run_visits_fives :
    Plan.IsCopy fives fivesAgain ∧ Coherent (.int 5 :: fives.values) ∧
    turnsFor (start fivesAgain) ≤ 6 ∧
    ∃ rep, (Run.new fun w : Unit => (.clear, w)).observed (fun _ w => w) 6 (start fivesAgain) () =
        some rep ∧
      ((Operator.contains .clear (.int 5) (Request.after (.next .clear) (start fives))).1 = true ↔
        ∃ y, some y ∈ rep.world.2.map Operator.result ∧ (y == .int 5) = true) := by
  have hcopy : Plan.IsCopy fives fivesAgain :=
    .probe _ _ (.fixed _ _ _) (.cons (.fixed _ _ _) .nil)
  have hcoherent : Coherent (.int 5 :: fives.values) := coherent_of_partialEquivBEq _
  have hturns : turnsFor (start fivesAgain) ≤ 6 := by decide
  exact ⟨hcopy, hcoherent, hturns, contains_iff_run_visits hcopy hcoherent _ _ rfl _ ()
    (Loop.unfired_of_look (fun _ => rfl) _) hturns⟩

end Cursor

end QueryPlan
