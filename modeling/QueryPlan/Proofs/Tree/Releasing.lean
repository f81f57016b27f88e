import QueryPlan.Proofs.Tree.Descriptions
import QueryPlan.Proofs.Tree.Testing

/-!
# Releasing a tree

A release goes into every node of a tree and does not stop at those that report an error.  What it
reports is the first error in the tree, and what it changes are the marks of release that the
leaves keep: a leaf that is closed has been released once, and a leaf that is not, never.

* `RowCursor.ReleasedOnce` — the invariant of a leaf, kept by every request
  (`RowSet.releasedOnce_after`).
* `Cursor.close_eq` — what a release reports and what it makes of a tree whose leaves keep it.
* `Cursor.close_releases_all` — **a release reaches all leaves whatever fails, once.**
-/

namespace QueryPlan

variable {α : Type}

/-! ## Leaves -/

/-- Was the leaf released once if it is closed, and never if it is not? -/
def RowCursor.ReleasedOnce (c : RowCursor) : Prop := c.releases = if c.closed then 1 else 0

namespace RowCursor

theorem releasedOnce_start : start.ReleasedOnce := rfl

theorem releasedOnce_released (c : RowCursor) : (c.released 1).ReleasedOnce := rfl

theorem Alike.released {c c' : RowCursor} (h : c.Alike c') (n : Nat) : (c.released n).Alike c' :=
  ⟨h.progress, h.index, h.current, h.path, h.err⟩

/-- Such a leaf is released for the first time, or has been before. -/
theorem ReleasedOnce.close_eq {c : RowCursor} (h : c.ReleasedOnce) :
    c.close = (Cursor.failureOf c.err, c.released 1) := by
  refine Prod.ext c.close_fst ?_
  rw [close_snd, released]
  unfold ReleasedOnce at h
  cases hclosed : c.closed with
  | true =>
    rw [hclosed, if_pos rfl] at h
    rw [if_pos rfl, ← h, ← hclosed]
  | false =>
    rw [hclosed, if_neg Bool.false_ne_true] at h
    rw [if_neg Bool.false_ne_true, h]

end RowCursor

/-- Only a release sets the marks of release. -/
theorem RowSet.marks_after [Item α] (leaf : RowSet α) {q : Request α} (hq : q ≠ .close)
    (c : RowCursor) :
    (leaf.after q c).releases = c.releases ∧ (leaf.after q c).closed = c.closed := by
  have hmakes := leaf.makes_after q c
  generalize leaf.after q c = c' at hmakes ⊢
  cases hmakes with
  | released n => exact absurd rfl hq
  | _ => exact ⟨rfl, rfl⟩

/-- **Every request keeps a leaf from being released again.** -/
theorem RowSet.releasedOnce_after [Item α] (leaf : RowSet α) (q : Request α) {c : RowCursor}
    (h : c.ReleasedOnce) : (leaf.after q c).ReleasedOnce := by
  by_cases hq : q = .close
  · subst hq
    show c.close.2.ReleasedOnce
    rw [h.close_eq]
    exact c.releasedOnce_released
  · obtain ⟨hreleases, hclosed⟩ := leaf.marks_after hq c
    unfold RowCursor.ReleasedOnce at h ⊢
    rw [hreleases, hclosed, h]

namespace Cursor

/-! ## Trees -/

mutual

/-- The tree with every leaf marked as released once, and all else as it is. -/
def released : {p : BasicPlan α} → Cursor p → Cursor p
  | _, .null => .null
  | _, .error => .error
  | _, .fixed c => .fixed (c.released 1)
  | _, .probe e c cs => .probe e (released c) (releasedAll cs)
  | _, .custom n => .custom n

/-- Several trees with every leaf marked as released once. -/
def releasedAll : {ps : List (BasicPlan α)} → Cursors ps → Cursors ps
  | _, .nil => .nil
  | _, .cons c cs => .cons (released c) (releasedAll cs)

end

section Equations

variable {uid : Uid} {p : BasicPlan α} {os : List (BasicPlan α)} {e : Option QueryError}
  {c : Cursor p} {cs : Cursors os}

theorem released_probe : released (.probe e c cs : Cursor (.probe uid p os)) =
    .probe e (released c) (releasedAll cs) := rfl

theorem releasedAll_cons : releasedAll (.cons c cs : Cursors (p :: os)) =
    .cons (released c) (releasedAll cs) := rfl

theorem close_probe : close (.probe e c cs : Cursor (.probe uid p os)) =
    (firstFailure (failureOf e) (firstFailure (close c).1 (closeAll cs).1),
      .probe e (close c).2 (closeAll cs).2) := rfl

theorem closeAll_cons : closeAll (.cons c cs : Cursors (p :: os)) =
    (firstFailure (close c).1 (closeAll cs).1, .cons (close c).2 (closeAll cs).2) := rfl

end Equations

/-! ### What a release reports -/

theorem firstFailure_failureOf (e e' : Option QueryError) :
    firstFailure (failureOf e) (failureOf e') = failureOf (e.or e') := by
  cases e <;> rfl

theorem failureOf_eq_ok_iff {e : Option QueryError} : failureOf e = .ok () ↔ e = none := by
  cases e <;> simp [failureOf]

/-- The first error among several nodes. -/
def firstOf (es : List (Option QueryError)) : Option QueryError := es.findSome? id

theorem firstOf_cons (e : Option QueryError) (es : List (Option QueryError)) :
    firstOf (e :: es) = e.or (firstOf es) := by
  cases e <;> rfl

theorem firstOf_append (es es' : List (Option QueryError)) :
    firstOf (es ++ es') = (firstOf es).or (firstOf es') := List.findSome?_append

theorem firstOf_eq_none_iff {es : List (Option QueryError)} :
    firstOf es = none ↔ ∀ e ∈ es, e = none := List.findSome?_eq_none_iff

/-- **A release reports the first error in the tree and marks every leaf**, if the leaves have not
been released too often before. -/
theorem close_eq {p : BasicPlan α} (c : Cursor p) :
    Everywhere (fun _ c => c.ReleasedOnce) (leaves c) →
      close c = (failureOf (firstOf (errs c)), released c) := by
  induction p, c using induct
    (Q := fun _ cs => Everywhere (fun _ c => c.ReleasedOnce) (allLeaves cs) →
      closeAll cs = (failureOf (firstOf (allErrs cs)), releasedAll cs)) with
  | null uid => exact fun _ => rfl
  | error uid e => exact fun _ => rfl
  | fixed uid leaf c =>
    intro h
    have hleaf : c.close = (failureOf c.err, c.released 1) := (everywhere_fixed.1 h).close_eq
    have hfirst : firstOf (errs (.fixed c : Cursor (.fixed uid leaf))) = c.err := by
      show firstOf [c.err] = c.err
      rw [firstOf_cons]
      exact Option.or_none
    rw [hfirst]
    show (c.close.1, Cursor.fixed c.close.2) = _
    rw [hleaf]
    rfl
  | probe uid p os e c cs ih ihcs =>
    intro h
    obtain ⟨hc, hcs⟩ := everywhere_append.1 h
    rw [close_probe, ih hc, ihcs hcs, firstFailure_failureOf, firstFailure_failureOf, errs_probe,
      firstOf_cons, firstOf_append, released_probe]
  | nil _ => rfl
  | cons p ps c cs ih ihcs h =>
    obtain ⟨hc, hcs⟩ := everywhere_append.1 h
    rw [closeAll_cons, ih hc, ihcs hcs, firstFailure_failureOf, allErrs_cons, firstOf_append,
      releasedAll_cons]

/-! ### What a release leaves as it is -/

/-- What the marks of release are to a tree: all its leaves have them, no node has another error,
and there are no more of them when they are set again. -/
structure Marked {p : BasicPlan α} (c : Cursor p) : Prop where
  /-- The leaves are the same but for the marks. -/
  leaves_eq : leaves (released c) = (leaves c).map fun l => (l.1, l.2.released 1)
  /-- The errors are the same. -/
  errs_eq : errs (released c) = errs c
  /-- Marking the tree again changes nothing. -/
  again : released (released c) = released c

/-- The same of several trees. -/
structure MarkedAll {ps : List (BasicPlan α)} (cs : Cursors ps) : Prop where
  /-- The leaves are the same but for the marks. -/
  leaves_eq : allLeaves (releasedAll cs) = (allLeaves cs).map fun l => (l.1, l.2.released 1)
  /-- The errors are the same. -/
  errs_eq : allErrs (releasedAll cs) = allErrs cs
  /-- Marking the trees again changes nothing. -/
  again : releasedAll (releasedAll cs) = releasedAll cs

theorem marked {p : BasicPlan α} (c : Cursor p) : Marked c := by
  induction p, c using induct (Q := fun _ cs => MarkedAll cs) with
  | null uid => exact ⟨rfl, rfl, rfl⟩
  | error uid e => exact ⟨rfl, rfl, rfl⟩
  | fixed uid leaf c => exact ⟨rfl, rfl, rfl⟩
  | probe uid p os e c cs hc hcs =>
    refine ⟨?_, ?_, ?_⟩
    · rw [released_probe, leaves_probe, leaves_probe, List.map_append, hc.leaves_eq,
        hcs.leaves_eq]
    · rw [released_probe, errs_probe, errs_probe, hc.errs_eq, hcs.errs_eq]
    · rw [released_probe, released_probe, hc.again, hcs.again]
  | nil => exact ⟨rfl, rfl, rfl⟩
  | cons p ps c cs hc hcs =>
    refine ⟨?_, ?_, ?_⟩
    · rw [releasedAll_cons, allLeaves_cons, allLeaves_cons, List.map_append, hc.leaves_eq,
        hcs.leaves_eq]
    · rw [releasedAll_cons, allErrs_cons, allErrs_cons, hc.errs_eq, hcs.errs_eq]
    · rw [releasedAll_cons, releasedAll_cons, hc.again, hcs.again]

/-- Every leaf of a marked tree has been released once. -/
theorem everywhere_released {p : BasicPlan α} (c : Cursor p) {P : RowSet α → RowCursor → Prop}
    (h : ∀ (leaf : RowSet α) (c : RowCursor), P leaf (c.released 1)) :
    Everywhere P (leaves (released c)) := by
  intro l hl
  rw [(marked c).leaves_eq] at hl
  obtain ⟨l', -, rfl⟩ := List.mem_map.1 hl
  exact h _ _

section Histories

variable [Item α] {p : BasicPlan α} {c c' : Cursor p}

/-- **A release leaves a cursor alike to what it was.** -/
theorem release_alike (h : Alike c c') : Alike (Operator.close c).2 c' := by
  refine alike_of_after (q := .close) nofun (fun hmakes h => ?_) h
  cases hmakes with
  | same _ _ => exact h
  | released n => exact h.released n

/-- Whatever is asked of alike trees, and for as long as one likes, they answer alike. -/
theorem transcript_alike (h : Alike c c') (qs : List (Question α)) :
    Question.transcript qs c = Question.transcript qs c' := by
  induction qs generalizing c c' with
  | nil => rfl
  | cons q qs ih =>
    rw [Question.transcript_cons, Question.transcript_cons, answer_alike h q,
      ih (after_alike h q.request)]

/-- At any time of a tree's life no leaf has been released more than once. -/
theorem releasedOnce_of_leads (hc : Operator.Leads (fun _ : Request α => True) (start p) c) :
    Everywhere (fun _ c => c.ReleasedOnce) (leaves c) :=
  hc.invariant (P := fun c => Everywhere (fun _ c => c.ReleasedOnce) (leaves c))
    (fun _ _ _ h => everywhere_after (fun q' _ leaf _ h => leaf.releasedOnce_after q' h) h)
    (everywhere_start (fun _ => RowCursor.releasedOnce_start) p)

/-- **A release reaches all leaves whatever fails, once.**  At any time of a tree's life and
whatever was asked of it before, under whatever contexts, a release succeeds exactly if no node of
the tree has an error, and otherwise reports the first one, a node's before its children's.  Either
way it sets the marks of all leaves, which have then been released once each, and changes nothing
else: no error, nor what the tree answers to whatever is asked of it from then on.  Another release
reports the same and changes nothing at all. -/
theorem close_releases_all (p : BasicPlan α) {c : Cursor p}
    (hc : Operator.Leads (fun _ : Request α => True) (start p) c) :
    ((Operator.close c).1 = .ok () ↔ ∀ e ∈ c.errs, e = none) ∧
    (Operator.close c).1 = failureOf (firstOf c.errs) ∧
    Everywhere (fun _ c => c.releases = 1) (leaves (Operator.close c).2) ∧
    (Operator.close c).2 = released c ∧
    (Operator.close c).2.errs = c.errs ∧
    (∀ qs, Question.transcript qs (Operator.close c).2 = Question.transcript qs c) ∧
    Operator.close (Operator.close c).2 = Operator.close c := by
  have hclose : Operator.close c = (failureOf (firstOf c.errs), released c) :=
    close_eq c (releasedOnce_of_leads hc)
  have hagain : Operator.close (released c) = (failureOf (firstOf c.errs), released c) := by
    have h := close_eq (released c)
      (everywhere_released c fun _ c => c.releasedOnce_released)
    rwa [(marked c).errs_eq, (marked c).again] at h
  have hlater (qs : List (Question α)) :
      Question.transcript qs (released c) = Question.transcript qs c := by
    have halike : Alike (Operator.close c).2 c := release_alike (alike_refl c)
    rw [hclose] at halike
    exact transcript_alike halike qs
  rw [hclose]
  refine ⟨?_, rfl, ?_, rfl, (marked c).errs_eq, hlater, hagain⟩
  · exact failureOf_eq_ok_iff.trans firstOf_eq_none_iff
  · exact everywhere_released c fun _ _ => rfl

end Histories

/-- An intersection of a leaf with an error and another leaf. -/
def brokenMeet : BasicPlan Ref :=
  .probe ⟨3⟩ (.fixed ⟨0⟩ (.ofValues [⟨[1]⟩])) [.error ⟨1⟩ (.backend "down"),
    .fixed ⟨2⟩ (.ofValues [⟨[1]⟩])]

/-- The intersection after a release, and after a test that its first child did not survive. -/
def closedThenFailed : Cursor brokenMeet :=
  Request.afterAll [.close, .contains .expired ⟨[1]⟩] (start brokenMeet)

theorem close_releases_all_closedThenFailed :
    Operator.Leads (fun _ : Request Ref => True) (start brokenMeet) closedThenFailed ∧
    closedThenFailed.errs = [none, some .deadlineExceeded, some (.backend "down"), none] ∧
    (Operator.close closedThenFailed).1 = .error .deadlineExceeded ∧
    Everywhere (fun _ c => c.releases = 1) (leaves (Operator.close closedThenFailed).2) ∧
    (leaves (Operator.close closedThenFailed).2).length = 2 ∧
    Operator.close (Operator.close closedThenFailed).2 = Operator.close closedThenFailed := by
  have hleads : Operator.Leads (fun _ : Request Ref => True) (start brokenMeet) closedThenFailed :=
    Operator.Leads.refl.requests fun _ _ => trivial
  have herrs : closedThenFailed.errs =
      [none, some .deadlineExceeded, some (.backend "down"), none] := by decide
  obtain ⟨-, hreport, hreleased, -, -, -, hagain⟩ := close_releases_all brokenMeet hleads
  rw [herrs] at hreport
  exact ⟨hleads, herrs, hreport, hreleased, rfl, hagain⟩

end Cursor

end QueryPlan
