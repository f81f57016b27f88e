import QueryPlan.Plan.Tree.Moves
import QueryPlan.Run.Options

/-!
# What a plan means

What a plan tree of the four kinds of node stands for, said without cursors: the rows it
has, the candidates it has, and the fault that a run over it shows.

* `Plan.rows`, `Plan.has` — the rows of the first child that every other child has, and
  membership in all children.
* `Plan.visits` — the values that a run visits, one by one.
* `Plan.hasErrorLeaf` — is there a fault anywhere?  Such a plan has nothing:
  `has_eq_false`, `rows_eq_nil`.
* `Plan.shownFault` — the fault of an error leaf at the end of the chain of first
  children, or right beside that chain.  These are the faults that a run can see, and
  `Plan.answer` is what it answers.
-/

namespace QueryPlan

/-! ## Induction over plan trees -/

section Induction

variable {α : Type} {P : BasicPlan α → Prop}

mutual

/-- A statement about the leaves that goes from the children of an intersection to the
intersection holds of every plan tree. -/
theorem BasicPlan.induct (null : ∀ uid, P (.null uid)) (error : ∀ uid e, P (.error uid e))
    (fixed : ∀ uid leaf, P (.fixed uid leaf))
    (probe : ∀ uid p os, P p → (∀ o ∈ os, P o) → P (.probe uid p os)) : ∀ p, P p
  | .null uid => null uid
  | .error uid e => error uid e
  | .fixed uid leaf => fixed uid leaf
  | .probe uid p os => probe uid p os (BasicPlan.induct null error fixed probe p)
      (BasicPlan.inductAll null error fixed probe os)

/-- The same for all of several trees. -/
theorem BasicPlan.inductAll (null : ∀ uid, P (.null uid)) (error : ∀ uid e, P (.error uid e))
    (fixed : ∀ uid leaf, P (.fixed uid leaf))
    (probe : ∀ uid p os, P p → (∀ o ∈ os, P o) → P (.probe uid p os)) :
    ∀ ps : List (BasicPlan α), ∀ p ∈ ps, P p
  | [], _, h => absurd h List.not_mem_nil
  | p :: ps, q, h => by
    rcases List.mem_cons.1 h with h | h
    · rw [h]
      exact BasicPlan.induct null error fixed probe p
    · exact BasicPlan.inductAll null error fixed probe ps q h

end

end Induction

namespace Plan

variable {α : Type}

/-! ## Rows and members -/

section Rows

variable [Item α]

mutual

/-- Is this one of the results?  An intersection has what all its children have. -/
def has (x : α) : BasicPlan α → Bool
  | .null _ => false
  | .error _ _ => false
  | .fixed _ leaf => leaf.rows.any (·.value == x)
  | .probe _ p os => has x p && allHave x os

/-- Is this one of the results of each of several plans? -/
def allHave (x : α) : List (BasicPlan α) → Bool
  | [] => true
  | p :: ps => has x p && allHave x ps

end

@[simp] theorem has_probe {uid : Uid} {p : BasicPlan α} {os : List (BasicPlan α)} (x : α) :
    has x (.probe uid p os) = (has x p && allHave x os) := rfl

@[simp] theorem allHave_nil (x : α) : allHave x [] = true := rfl

@[simp] theorem allHave_cons {p : BasicPlan α} {ps : List (BasicPlan α)} (x : α) :
    allHave x (p :: ps) = (has x p && allHave x ps) := rfl

/-- The rows, in order: those of the first child whose values all others have. -/
def rows : BasicPlan α → List (Row α)
  | .null _ => []
  | .error _ _ => []
  | .fixed _ leaf => leaf.rows
  | .probe _ p os => (rows p).filter fun r => allHave r.value os

theorem rows_probe {uid : Uid} {p : BasicPlan α} {os : List (BasicPlan α)} :
    rows (.probe uid p os) = (rows p).filter fun r => allHave r.value os := rfl

end Rows

/-- The values that a run over these rows visits: each row's value once, or once for each
way of reaching it. -/
def visitsOf (paths : Bool) (rows : List (Row α)) : List α :=
  rows.flatMap fun r => List.replicate (if paths then r.paths else 1) r.value

theorem visitsOf_cons_false (r : Row α) (rs : List (Row α)) :
    visitsOf false (r :: rs) = r.value :: visitsOf false rs := rfl

theorem visitsOf_cons_true (r : Row α) (rs : List (Row α)) :
    visitsOf true (r :: rs) = List.replicate r.paths r.value ++ visitsOf true rs := rfl

/-- The values that a run over the plan visits. -/
def visits [Item α] (paths : Bool) (p : BasicPlan α) : List α := visitsOf paths p.rows

/-! ## Faults -/

mutual

/-- Is there an error leaf anywhere in the tree? -/
def hasErrorLeaf : BasicPlan α → Bool
  | .null _ => false
  | .error _ _ => true
  | .fixed _ _ => false
  | .probe _ p os => hasErrorLeaf p || anyHasErrorLeaf os

/-- Is there an error leaf anywhere in several trees? -/
def anyHasErrorLeaf : List (BasicPlan α) → Bool
  | [] => false
  | p :: ps => hasErrorLeaf p || anyHasErrorLeaf ps

end

@[simp] theorem hasErrorLeaf_probe {uid : Uid} {p : BasicPlan α} {os : List (BasicPlan α)} :
    hasErrorLeaf (.probe uid p os) = (hasErrorLeaf p || anyHasErrorLeaf os) := rfl

@[simp] theorem anyHasErrorLeaf_nil : anyHasErrorLeaf ([] : List (BasicPlan α)) = false := rfl

@[simp] theorem anyHasErrorLeaf_cons {p : BasicPlan α} {ps : List (BasicPlan α)} :
    anyHasErrorLeaf (p :: ps) = (hasErrorLeaf p || anyHasErrorLeaf ps) := rfl

/-- The fault of an error leaf. -/
def leafFault : BasicPlan α → Option QueryError
  | .error _ e => some e
  | _ => none

/-- The fault that a run shows: that of an error leaf at the end of the chain of first
children, or the first of those right beside that chain, seen from its end. -/
def shownFault : BasicPlan α → Option QueryError
  | .error _ e => some e
  | .probe _ p os => (shownFault p).or (os.findSome? leafFault)
  | _ => none

theorem shownFault_probe {uid : Uid} {p : BasicPlan α} {os : List (BasicPlan α)} :
    shownFault (.probe uid p os) = (shownFault p).or (os.findSome? leafFault) := rfl

/-- What a run over the whole plan answers: the fault that it shows, or else the result. -/
def answer {β : Type} (p : BasicPlan α) (x : β) : Except QueryError β :=
  match p.shownFault with
  | some e => .error e
  | none => .ok x

theorem answer_map {β γ : Type} (f : β → γ) (p : BasicPlan α) (x : β) :
    (p.answer x).map f = p.answer (f x) := by
  unfold answer
  cases p.shownFault <;> rfl

theorem anyHasErrorLeaf_iff {ps : List (BasicPlan α)} :
    anyHasErrorLeaf ps = true ↔ ∃ p ∈ ps, hasErrorLeaf p = true := by
  induction ps with
  | nil => simp
  | cons p ps ih => simp [ih]

theorem hasErrorLeaf_of_leafFault {p : BasicPlan α} {e : QueryError}
    (h : leafFault p = some e) : hasErrorLeaf p = true := by
  cases p with
  | error uid e => rfl
  | _ => cases h

/-- What a run shows is a fault of the tree. -/
theorem hasErrorLeaf_of_shownFault {p : BasicPlan α} :
    ∀ {e : QueryError}, p.shownFault = some e → p.hasErrorLeaf = true := by
  induction p using BasicPlan.induct with
  | null uid => intro e h; cases h
  | error uid e => intro _ _; rfl
  | fixed uid leaf => intro e h; cases h
  | probe uid p os ih _ =>
    intro e h
    rw [shownFault_probe, Option.or_eq_some_iff] at h
    rw [hasErrorLeaf_probe, Bool.or_eq_true, anyHasErrorLeaf_iff]
    rcases h with h | ⟨-, h⟩
    · exact Or.inl (ih h)
    · obtain ⟨o, ho, hf⟩ := List.exists_of_findSome?_eq_some h
      exact Or.inr ⟨o, ho, hasErrorLeaf_of_leafFault hf⟩

theorem shownFault_eq_none {p : BasicPlan α} (h : p.hasErrorLeaf = false) :
    p.shownFault = none := by
  cases hf : p.shownFault with
  | none => rfl
  | some e => rw [hasErrorLeaf_of_shownFault hf] at h; cases h

variable [Item α]

theorem allHave_eq_true_iff {x : α} {ps : List (BasicPlan α)} :
    allHave x ps = true ↔ ∀ p ∈ ps, has x p = true := by
  induction ps with
  | nil => simp
  | cons p ps ih => simp [ih]

/-- **A plan with a fault has no members** … -/
theorem has_eq_false {p : BasicPlan α} (h : p.hasErrorLeaf = true) (x : α) :
    p.has x = false := by
  induction p using BasicPlan.induct with
  | null uid => cases h
  | error uid e => rfl
  | fixed uid leaf => cases h
  | probe uid p os ihp ihos =>
    rw [hasErrorLeaf_probe, Bool.or_eq_true, anyHasErrorLeaf_iff] at h
    rw [has_probe, Bool.and_eq_false_iff]
    rcases h with h | ⟨o, ho, h⟩
    · exact Or.inl (ihp h)
    · refine Or.inr (Bool.eq_false_iff.2 fun hall => ?_)
      have := allHave_eq_true_iff.1 hall o ho
      rw [ihos o ho h] at this
      cases this

theorem allHave_eq_false {ps : List (BasicPlan α)} (h : anyHasErrorLeaf ps = true) (x : α) :
    allHave x ps = false := by
  obtain ⟨o, ho, hf⟩ := anyHasErrorLeaf_iff.1 h
  refine Bool.eq_false_iff.2 fun hall => ?_
  have := allHave_eq_true_iff.1 hall o ho
  rw [has_eq_false hf] at this
  cases this

/-- … and no rows. -/
theorem rows_eq_nil {p : BasicPlan α} (h : p.hasErrorLeaf = true) : p.rows = [] := by
  induction p using BasicPlan.induct with
  | null uid => rfl
  | error uid e => rfl
  | fixed uid leaf => cases h
  | probe uid p os ih _ =>
    rw [hasErrorLeaf_probe, Bool.or_eq_true] at h
    rw [rows_probe]
    rcases h with h | h
    · rw [ih h, List.filter_nil]
    · exact List.filter_eq_nil_iff.2 fun r _ => by simp [allHave_eq_false h]

theorem visits_eq_nil {p : BasicPlan α} (h : p.hasErrorLeaf = true) (paths : Bool) :
    p.visits paths = [] := by
  rw [visits, rows_eq_nil h, visitsOf, List.flatMap_nil]

end Plan

end QueryPlan
