import Mathlib.Data.List.Forall2
import QueryPlan.Proofs.Run.Likeness
import QueryPlan.Proofs.Tree.AnyContext
import QueryPlan.Proofs.Tree.Reordering

/-!
# Copies of a tree

A copy of a plan is built in the same way from the same data; only the identities of its
nodes are others.  Cursors of copies that stand at the same place are alike, and neither the
identities nor what the leaves have counted shows in what such cursors do.

* `Plan.IsCopy.reordered`, `Plan.IsCopy.rows` — copies are in particular reordered plans, and so
  have the same rows.
* `Cursor.contains_alike`, `Cursor.next_alike`, `Cursor.nextPath_alike` — alike cursors
  answer alike and stay alike.
* `Cursor.likens_alike` — so a run does not tell them apart, and in particular not the
  cursors of newly built copies (`Cursor.sameAnswers_of_isCopy`).
-/

namespace QueryPlan

variable {α : Type}

/-! ## Copies of a plan -/

namespace Plan

/-- Are these the same plans but for the identities of the nodes? -/
inductive IsCopy : BasicPlan α → BasicPlan α → Prop where
  /-- Two nodes without results. -/
  | null (uid uid' : Uid) : IsCopy (.null uid) (.null uid')
  /-- Two faults. -/
  | error (uid uid' : Uid) (e : QueryError) : IsCopy (.error uid e) (.error uid' e)
  /-- Two leaves with the same rows. -/
  | fixed (uid uid' : Uid) (leaf : RowSet α) : IsCopy (.fixed uid leaf) (.fixed uid' leaf)
  /-- Two intersections of copies. -/
  | probe (uid uid' : Uid) {p p' : BasicPlan α} {os os' : List (BasicPlan α)} (hp : IsCopy p p')
      (hos : List.Forall₂ IsCopy os os') : IsCopy (.probe uid p os) (.probe uid' p' os')

namespace IsCopy

/-- Copies are plans whose other children are in the same order. -/
theorem reordered {p : BasicPlan α} : ∀ {p'}, IsCopy p p' → Reordered p p' := by
  induction p using BasicPlan.induct with
  | null uid =>
    intro p' h
    cases h
    exact .null _ _
  | error uid e =>
    intro p' h
    cases h
    exact .error _ _ _
  | fixed uid leaf =>
    intro p' h
    cases h
    exact .fixed _ _ _
  | probe uid p os ih ihos =>
    intro p' h
    cases h with
    | probe _ _ hp hos =>
      have hcopies : ∀ o ∈ os, ∀ o', IsCopy o o' → Reordered o o' := fun o ho _ h => ihos o ho h
      exact .probe _ _ (ih hp) (List.Perm.refl os)
        (((List.forall₂_and_left _ _).2 ⟨hcopies, hos⟩).imp fun _ _ h => h.1 _ h.2)

/-- Copies have the same rows. -/
theorem rows [Item α] {p p' : BasicPlan α} (h : IsCopy p p') : p.rows = p'.rows :=
  h.reordered.rows

end IsCopy

end Plan

/-! ## Leaves at the same place -/

/-- Do these cursors stand at the same place?  What they have counted does not matter. -/
structure RowCursor.Alike (c c' : RowCursor) : Prop where
  /-- They have the same state and the same count. -/
  progress : c.progress = c'.progress
  /-- They have the same row before them. -/
  index : c.index = c'.index
  /-- They stand on the same row. -/
  current : c.current = c'.current
  /-- They stand on the same witness. -/
  path : c.path = c'.path
  /-- The same error stopped them. -/
  err : c.err = c'.err

/-- Cursors at the same place differ in what they have counted. -/
theorem RowCursor.Alike.exists_counts {c c' : RowCursor} (h : c.Alike c') :
    ∃ nexts tests hits releases closed, c' =
      { c with
        nextCalls := nexts
        containsCalls := tests
        containsHits := hits
        releases := releases
        closed := closed } := by
  refine ⟨c'.nextCalls, c'.containsCalls, c'.containsHits, c'.releases, c'.closed, ?_⟩
  rw [h.progress, h.index, h.current, h.path, h.err]

namespace RowSet

variable (leaf : RowSet α) {c c' : RowCursor}

theorem currentRow_alike (h : c.Alike c') : leaf.currentRow c = leaf.currentRow c' := by
  rw [currentRow, currentRow, h.current]

theorem result_alike (h : c.Alike c') : leaf.result c = leaf.result c' := by
  rw [result, result, currentRow_alike leaf h]

theorem publish_alike (h : c.Alike c') (dst : Bindings α) :
    leaf.publish c dst = leaf.publish c' dst := by
  have hwitness : leaf.witness c = leaf.witness c' := by
    rw [witness, witness, currentRow_alike leaf h, h.path]
  rw [publish, publish, result_alike leaf h, hwitness]

theorem next_alike (h : c.Alike c') (s : Signal) :
    (leaf.next s c).1 = (leaf.next s c').1 ∧ (leaf.next s c).2.Alike (leaf.next s c').2 := by
  obtain ⟨_, _, _, _, _, rfl⟩ := h.exists_counts
  unfold next
  dsimp only
  by_cases ht : c.progress.state.isTerminal = true
  · rw [if_pos ht, if_pos ht]
    exact ⟨rfl, h⟩
  · rw [if_neg ht, if_neg ht]
    cases s with
    | clear =>
      by_cases hi : c.index < leaf.rows.length
      · simp only [RowCursor.stop, Signal.error?, Option.map_none, if_pos hi]
        exact ⟨trivial, rfl, rfl, rfl, rfl, rfl⟩
      · simp only [RowCursor.stop, Signal.error?, Option.map_none, if_neg hi]
        exact ⟨trivial, rfl, rfl, rfl, rfl, rfl⟩
    | cancelled => exact ⟨rfl, rfl, rfl, rfl, rfl, rfl⟩
    | expired => exact ⟨rfl, rfl, rfl, rfl, rfl, rfl⟩

theorem nextPath_alike (h : c.Alike c') (s : Signal) :
    (leaf.nextPath s c).1 = (leaf.nextPath s c').1 ∧
      (leaf.nextPath s c).2.Alike (leaf.nextPath s c').2 := by
  have hcurrent := currentRow_alike leaf h
  obtain ⟨_, _, _, _, _, rfl⟩ := h.exists_counts
  unfold nextPath
  rw [← hcurrent]
  cases leaf.currentRow c with
  | none => exact ⟨rfl, h⟩
  | some row =>
    cases s with
    | clear =>
      by_cases hp : c.path + 1 < row.witnesses.length
      · simp only [RowCursor.stop, Signal.error?, Option.map_none, if_pos hp]
        exact ⟨trivial, rfl, rfl, rfl, rfl, rfl⟩
      · simp only [RowCursor.stop, Signal.error?, Option.map_none, if_neg hp]
        exact ⟨trivial, rfl, rfl, rfl, rfl, rfl⟩
    | cancelled => exact ⟨rfl, rfl, rfl, rfl, rfl, rfl⟩
    | expired => exact ⟨rfl, rfl, rfl, rfl, rfl, rfl⟩

theorem contains_alike [BEq α] (h : c.Alike c') (s : Signal) (x : α) :
    (leaf.contains s x c).1 = (leaf.contains s x c').1 ∧
      (leaf.contains s x c).2.Alike (leaf.contains s x c').2 := by
  obtain ⟨_, _, _, _, _, rfl⟩ := h.exists_counts
  unfold contains
  cases s with
  | clear =>
    cases hx : leaf.rows.any (·.value == x) with
    | true => exact ⟨by simp [RowCursor.stop, Signal.error?], rfl, rfl, rfl, rfl, rfl⟩
    | false => exact ⟨rfl, rfl, rfl, rfl, rfl, rfl⟩
  | cancelled => exact ⟨rfl, rfl, rfl, rfl, rfl, rfl⟩
  | expired => exact ⟨rfl, rfl, rfl, rfl, rfl, rfl⟩

end RowSet

/-! ## Cursors at the same place -/

namespace Cursor

mutual

/-- Do these cursors of copies stand at the same place? -/
inductive Alike : {p p' : BasicPlan α} → Cursor p → Cursor p' → Prop where
  /-- Nothing can differ. -/
  | null {uid uid' : Uid} : Alike (.null : Cursor (.null uid)) (.null : Cursor (.null uid'))
  /-- Nothing can differ. -/
  | error {uid uid' : Uid} {e : QueryError} :
      Alike (.error : Cursor (.error uid e)) (.error : Cursor (.error uid' e))
  /-- The cursors of the rows stand at the same place. -/
  | fixed {uid uid' : Uid} {leaf : RowSet α} {c c' : RowCursor} (h : c.Alike c') :
      Alike (.fixed c : Cursor (.fixed uid leaf)) (.fixed c' : Cursor (.fixed uid' leaf))
  /-- The same error stopped both intersections, and the children's cursors are alike. -/
  | probe {uid uid' : Uid} {p p' : BasicPlan α} {os os' : List (BasicPlan α)}
      (e : Option QueryError) {c : Cursor p} {c' : Cursor p'} {cs : Cursors os}
      {cs' : Cursors os'} (h : Alike c c') (hs : AlikeAll cs cs') :
      Alike (.probe e c cs : Cursor (.probe uid p os))
        (.probe e c' cs' : Cursor (.probe uid' p' os'))

/-- Do the cursors of several copies stand at the same places? -/
inductive AlikeAll : {ps ps' : List (BasicPlan α)} → Cursors ps → Cursors ps' → Prop where
  /-- There are none. -/
  | nil : AlikeAll .nil .nil
  /-- The first are alike, and so are the others. -/
  | cons {p p' : BasicPlan α} {ps ps' : List (BasicPlan α)} {c : Cursor p} {c' : Cursor p'}
      {cs : Cursors ps} {cs' : Cursors ps'} (h : Alike c c') (hs : AlikeAll cs cs') :
      AlikeAll (.cons c cs : Cursors (p :: ps)) (.cons c' cs' : Cursors (p' :: ps'))

end

/-! ### What alike cursors show -/

section Views

variable {p p' : BasicPlan α} {c : Cursor p} {c' : Cursor p'}

theorem err_alike (h : Alike c c') : err c = err c' := by
  cases h with
  | null => rfl
  | error => rfl
  | fixed h => exact h.err
  | probe e _ _ => rfl

theorem firstErr_alike {ps : List (BasicPlan α)} : ∀ {ps' : List (BasicPlan α)}
    {cs : Cursors ps} {cs' : Cursors ps'}, AlikeAll cs cs' → firstErr cs = firstErr cs' := by
  induction ps with
  | nil =>
    intro ps' cs cs' h
    cases h
    rfl
  | cons p ps ih =>
    intro ps' cs cs' h
    cases h with
    | cons h hs => rw [firstErr_cons, firstErr_cons, err_alike h, ih hs]

theorem result_alike : ∀ {p' : BasicPlan α} {c : Cursor p} {c' : Cursor p'}, Alike c c' →
    result c = result c' := by
  induction p using BasicPlan.induct with
  | null uid =>
    intro p' c c' h
    cases h
    rfl
  | error uid e =>
    intro p' c c' h
    cases h
    rfl
  | fixed uid leaf =>
    intro p' c c' h
    cases h with
    | fixed h => exact RowSet.result_alike _ h
  | probe uid p os ih _ =>
    intro p' c c' h
    cases h with
    | probe _ h _ =>
      have hc := ih h
      exact hc

theorem pending_alike : ∀ {p' : BasicPlan α} {c : Cursor p} {c' : Cursor p'}, Alike c c' →
    pending c = pending c' := by
  induction p using BasicPlan.induct with
  | null uid =>
    intro p' c c' h
    cases h
    rfl
  | error uid e =>
    intro p' c c' h
    cases h
    rfl
  | fixed uid leaf =>
    intro p' c c' h
    cases h with
    | @fixed _ _ _ c c' h =>
      show leaf.pending c = leaf.pending c'
      rw [RowSet.pending, RowSet.pending, h.index]
  | probe uid p os ih _ =>
    intro p' c c' h
    cases h with
    | probe _ h _ =>
      have hc := ih h
      exact hc

theorem publishAll_alike {ps : List (BasicPlan α)}
    (hps : ∀ p ∈ ps, ∀ {p' : BasicPlan α} {c : Cursor p} {c' : Cursor p'}, Alike c c' →
      ∀ dst, publish c dst = publish c' dst) :
    ∀ {ps' : List (BasicPlan α)} {cs : Cursors ps} {cs' : Cursors ps'}, AlikeAll cs cs' →
      ∀ dst, publishAll cs dst = publishAll cs' dst := by
  induction ps with
  | nil =>
    intro ps' cs cs' h dst
    cases h
    rfl
  | cons p ps ih =>
    intro ps' cs cs' h dst
    cases h with
    | @cons _ _ _ _ c c' cs cs' h hs =>
      have hrest := ih (fun q hq => hps q (List.mem_cons_of_mem _ hq)) hs
      calc publishAll cs (publish c dst) = publishAll cs' (publish c dst) := hrest _
        _ = publishAll cs' (publish c' dst) := by rw [hps p List.mem_cons_self h dst]

theorem publish_alike : ∀ {p' : BasicPlan α} {c : Cursor p} {c' : Cursor p'}, Alike c c' →
    ∀ dst, publish c dst = publish c' dst := by
  induction p using BasicPlan.induct with
  | null uid =>
    intro p' c c' h dst
    cases h
    rfl
  | error uid e =>
    intro p' c c' h dst
    cases h
    rfl
  | fixed uid leaf =>
    intro p' c c' h dst
    cases h with
    | fixed h => exact RowSet.publish_alike _ h dst
  | probe uid p os ih ihos =>
    intro p' c c' h dst
    cases h with
    | @probe _ _ _ _ _ _ _ c c' cs cs' h hs =>
      calc publishAll cs (publish c dst) = publishAll cs' (publish c dst) :=
          publishAll_alike ihos hs _
        _ = publishAll cs' (publish c' dst) := by rw [ih h dst]

end Views

/-! ### What alike cursors do -/

/-- Alike answers: the same word, and cursors that are alike. -/
def AnswerAlike {p p' : BasicPlan α} (answer : Bool × Cursor p) (answer' : Bool × Cursor p') :
    Prop :=
  answer.1 = answer'.1 ∧ Alike answer.2 answer'.2

theorem AnswerAlike.exists_eq {p p' : BasicPlan α} {answer : Bool × Cursor p}
    {answer' : Bool × Cursor p'} (h : AnswerAlike answer answer') :
    ∃ yes c c', answer = (yes, c) ∧ answer' = (yes, c') ∧ Alike c c' :=
  ⟨answer.1, answer.2, answer'.2, rfl, by rw [h.1], h.2⟩

section Moves

variable {p : BasicPlan α}

theorem nextPath_alike (s : Signal) : ∀ {p' : BasicPlan α} {c : Cursor p} {c' : Cursor p'},
    Alike c c' → AnswerAlike (nextPath s c) (nextPath s c') := by
  induction p using BasicPlan.induct with
  | null uid =>
    intro p' c c' h
    cases h
    exact ⟨rfl, .null⟩
  | error uid e =>
    intro p' c c' h
    cases h
    exact ⟨rfl, .error⟩
  | fixed uid leaf =>
    intro p' c c' h
    cases h with
    | fixed h =>
      obtain ⟨hyes, hafter⟩ := RowSet.nextPath_alike leaf h s
      exact ⟨hyes, .fixed hafter⟩
  | probe uid p os ih _ =>
    intro p' c c' h
    cases h with
    | probe e h hs =>
      obtain ⟨hyes, hafter⟩ := ih h
      exact ⟨hyes, .probe e hafter hs⟩

variable [Item α]

theorem containsAll_alike {s : Signal} {x : α} {ps : List (BasicPlan α)}
    (hps : ∀ p ∈ ps, ∀ {p' : BasicPlan α} {c : Cursor p} {c' : Cursor p'}, Alike c c' →
      AnswerAlike (contains s x c) (contains s x c')) :
    ∀ {ps' : List (BasicPlan α)} {cs : Cursors ps} {cs' : Cursors ps'}, AlikeAll cs cs' →
      (containsAll s x cs).1 = (containsAll s x cs').1 ∧
        AlikeAll (containsAll s x cs).2 (containsAll s x cs').2 := by
  induction ps with
  | nil =>
    intro ps' cs cs' h
    cases h
    exact ⟨rfl, .nil⟩
  | cons p ps ih =>
    intro ps' cs cs' h
    cases h with
    | @cons _ _ _ _ c c' cs cs' h hs =>
      obtain ⟨yes, c₁, c₁', hc, hc', hafter⟩ := (hps p List.mem_cons_self h).exists_eq
      obtain ⟨hrest, hafters⟩ := ih (fun q hq => hps q (List.mem_cons_of_mem _ hq)) hs
      rw [containsAll_cons, containsAll_cons, hc, hc']
      cases yes with
      | false => exact ⟨rfl, .cons hafter hs⟩
      | true => exact ⟨hrest, .cons hafter hafters⟩

/-- **Alike cursors have the same members.** -/
theorem contains_alike (s : Signal) (x : α) : ∀ {p' : BasicPlan α} {c : Cursor p}
    {c' : Cursor p'}, Alike c c' → AnswerAlike (contains s x c) (contains s x c') := by
  induction p using BasicPlan.induct with
  | null uid =>
    intro p' c c' h
    cases h
    exact ⟨rfl, .null⟩
  | error uid e =>
    intro p' c c' h
    cases h
    exact ⟨rfl, .error⟩
  | fixed uid leaf =>
    intro p' c c' h
    cases h with
    | fixed h =>
      obtain ⟨hyes, hafter⟩ := RowSet.contains_alike leaf h s x
      exact ⟨hyes, .fixed hafter⟩
  | probe uid p os ih ihos =>
    intro p' c c' h
    cases h with
    | @probe _ _ _ _ _ _ e c c' cs cs' h hs =>
      obtain ⟨yes, c₁, c₁', hc, hc', hafter⟩ := (ih h).exists_eq
      obtain ⟨hrest, hafters⟩ := containsAll_alike ihos hs
      rw [contains_probe, contains_probe, hc, hc']
      cases yes with
      | false => exact ⟨rfl, .probe e hafter hs⟩
      | true => exact ⟨hrest, .probe e hafter hafters⟩

/-! ### Steps -/

/-- Searches that come to the same, or both run out of fuel. -/
inductive SearchAlike {p p' : BasicPlan α} {os os' : List (BasicPlan α)} :
    Option (Bool × Option QueryError × Cursor p × Cursors os) →
    Option (Bool × Option QueryError × Cursor p' × Cursors os') → Prop where
  /-- Both run out of fuel. -/
  | none : SearchAlike .none .none
  /-- Both end. -/
  | some (yes : Bool) (e : Option QueryError) {c : Cursor p} {c' : Cursor p'} {cs : Cursors os}
      {cs' : Cursors os'} (h : Alike c c') (hs : AlikeAll cs cs') :
      SearchAlike (.some (yes, e, c, cs)) (.some (yes, e, c', cs'))

theorem search_alike {p' : BasicPlan α} {os os' : List (BasicPlan α)} {s : Signal}
    {step : Cursor p → Bool × Cursor p} {step' : Cursor p' → Bool × Cursor p'}
    (hstep : ∀ {c c'}, Alike c c' → AnswerAlike (step c) (step' c')) :
    ∀ {rounds : Nat} {c : Cursor p} {c' : Cursor p'} {cs : Cursors os} {cs' : Cursors os'},
      Alike c c' → AlikeAll cs cs' →
      SearchAlike (search step s rounds c cs) (search step' s rounds c' cs') := by
  intro rounds
  induction rounds with
  | zero => exact fun _ _ => .none
  | succ n ih =>
    intro c c' cs cs' h hs
    obtain ⟨yes, c₁, c₁', hc, hc', hafter⟩ := (hstep h).exists_eq
    rw [search_succ, search_succ, hc, hc']
    cases yes with
    | false =>
      dsimp only
      rw [err_alike hafter, firstErr_alike hs]
      exact .some _ _ hafter hs
    | true =>
      dsimp only
      rw [result_alike hafter]
      cases result c₁' with
      | none => exact ih hafter hs
      | some x =>
        dsimp only
        obtain ⟨htest, hafters⟩ := containsAll_alike (s := s)
          (fun o _ {_ _ _} h => contains_alike s x h) hs
        rcases ht : containsAll s x cs with ⟨yes, cs₁⟩
        rcases ht' : containsAll s x cs' with ⟨yes', cs₁'⟩
        rw [ht, ht'] at htest hafters
        dsimp only at htest hafters
        subst htest
        cases yes with
        | true => exact .some _ _ hafter hafters
        | false =>
          dsimp only
          rw [firstErr_alike hafters]
          cases firstErr cs₁' with
          | none => exact ih hafter hafters
          | some e => exact .some _ _ hafter hafters

/-- **Alike cursors take the same steps.** -/
theorem next_alike (s : Signal) : ∀ {p' : BasicPlan α} {c : Cursor p} {c' : Cursor p'},
    Alike c c' → AnswerAlike (next s c) (next s c') := by
  induction p using BasicPlan.induct generalizing s with
  | null uid =>
    intro p' c c' h
    cases h
    exact ⟨rfl, .null⟩
  | error uid e =>
    intro p' c c' h
    cases h
    exact ⟨rfl, .error⟩
  | fixed uid leaf =>
    intro p' c c' h
    cases h with
    | fixed h =>
      obtain ⟨hyes, hafter⟩ := RowSet.next_alike leaf h s
      exact ⟨hyes, .fixed hafter⟩
  | probe uid p os ih _ =>
    intro p' c c' h
    cases h with
    | @probe _ _ _ _ _ _ e c c' cs cs' h hs =>
      cases e with
      | some e =>
        rw [next_probe_some, next_probe_some]
        exact ⟨rfl, .probe _ h hs⟩
      | none =>
        rcases s.eq_clear_or_error? with rfl | ⟨e, he⟩
        · rw [next_probe_clear, next_probe_clear, pending_alike h]
          have hsearch : SearchAlike
              (search (next .clear) .clear ((pending c').length + 1) c cs)
              (search (next .clear) .clear ((pending c').length + 1) c' cs') :=
            search_alike (ih .clear) h hs
          generalize search (next .clear) .clear ((pending c').length + 1) c cs = a at hsearch ⊢
          generalize search (next .clear) .clear ((pending c').length + 1) c' cs' = a' at hsearch ⊢
          cases hsearch with
          | none => exact ⟨rfl, .probe _ h hs⟩
          | some yes e h' hs' => exact ⟨rfl, .probe e h' hs'⟩
        · rw [next_probe_fired he, next_probe_fired he]
          exact ⟨rfl, .probe _ h hs⟩

end Moves

/-! ### Runs -/

/-- **A run does not tell alike cursors apart.** -/
theorem likens_alike [Item α] (p p' : BasicPlan α) :
    Operator.Likens (Alike : Cursor p → Cursor p' → Prop) where
  move h phase s := by
    cases phase with
    | results => exact next_alike s h
    | paths => exact nextPath_alike s h
  err := err_alike
  result := result_alike
  publish := publish_alike

/-- **Runs over alike cursors give the same answers.** -/
theorem sameAnswers_of_alike [Item α] {ω : Type} {p p' : BasicPlan α} {c : Cursor p}
    {c' : Cursor p'} (h : Alike c c') (r : Run ω) (w : ω) {turns : Nat}
    (hturns : turnsFor c ≤ turns) : r.SameAnswers turns c c' w :=
  Run.sameAnswers_of_alike (likens_alike p p') r h w fun l w' => Run.exists_halt l c w' hturns

theorem turnsFor_alike [Item α] {p p' : BasicPlan α} {c : Cursor p} {c' : Cursor p'}
    (h : Alike c c') : turnsFor c = turnsFor c' :=
  congrArg (fun rows => turnsOf rows + 2) (pending_alike h)

theorem alike_startAll {ps ps' : List (BasicPlan α)} (h : List.Forall₂ Plan.IsCopy ps ps')
    (hps : ∀ p ∈ ps, ∀ p', Plan.IsCopy p p' → Alike (start p) (start p')) :
    AlikeAll (startAll ps) (startAll ps') := by
  induction h with
  | nil => exact .nil
  | cons hp _ ih =>
    exact .cons (hps _ List.mem_cons_self _ hp) (ih fun q hq => hps q (List.mem_cons_of_mem _ hq))

/-- Newly built copies are alike. -/
theorem alike_start {p : BasicPlan α} : ∀ {p'}, Plan.IsCopy p p' → Alike (start p) (start p') := by
  induction p using BasicPlan.induct with
  | null uid =>
    intro p' h
    cases h
    exact .null
  | error uid e =>
    intro p' h
    cases h
    exact .error
  | fixed uid leaf =>
    intro p' h
    cases h
    exact .fixed ⟨rfl, rfl, rfl, rfl, rfl⟩
  | probe uid p os ih ihos =>
    intro p' h
    cases h with
    | probe _ _ hp hos =>
      exact .probe none (ih hp) (alike_startAll hos fun o ho _ h => ihos o ho h)

/-- **Identities do not show in a run**: runs over newly built copies give the same answers. -/
theorem sameAnswers_of_isCopy [Item α] {ω : Type} {p p' : BasicPlan α} (h : Plan.IsCopy p p')
    (r : Run ω) (w : ω) {turns : Nat} (hturns : turnsFor (start p) ≤ turns) :
    r.SameAnswers turns (start p) (start p') w :=
  sameAnswers_of_alike (alike_start h) r w hturns

end Cursor

end QueryPlan
