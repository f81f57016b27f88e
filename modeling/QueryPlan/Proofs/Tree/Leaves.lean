import QueryPlan.Proofs.Tree.Requests

/-!
# The leaves of a tree

Requests are made to the root of a tree, and its leaves get whatever the nodes above them pass
on.  An intersection passes a request on as it is, or leaves it at that; only a step becomes a
search there, with steps of the first child and tests in the others, all of them under contexts
that show nothing.

* `Request.PassesOn` — what a node below may be asked when the root is asked this.
* `Cursor.after_probe_keeps` — what the children keep of themselves when they are asked that, any
  request to the intersection keeps.
* `Cursor.leaves`, `Cursor.everywhere_after` — so it is for every leaf of the tree.
-/

namespace QueryPlan

variable {α : Type}

/-- Asked the first at its root, a tree may ask the second of a node below. -/
inductive Request.PassesOn : Request α → Request α → Prop where
  /-- The request itself. -/
  | itself (q : Request α) : PassesOn q q
  /-- The search for a result steps. -/
  | step (s : Signal) : PassesOn (.next s) (.next .clear)
  /-- The search for a result tests. -/
  | test (s : Signal) (x : α) : PassesOn (.next s) (.contains .clear x)

theorem Request.PassesOn.trans {q q' q'' : Request α} (h : q.PassesOn q') (h' : q'.PassesOn q'') :
    q.PassesOn q'' := by
  cases h with
  | itself => exact h'
  | step s =>
    cases h' with
    | itself => exact .step s
    | step => exact .step s
    | test _ x => exact .test s x
  | test s x =>
    cases h' with
    | itself => exact .test s x

/-- Every request but a step is passed on as it is. -/
theorem Request.PassesOn.eq {q q' : Request α} (h : q.PassesOn q') (hq : ∀ s, q ≠ .next s) :
    q' = q := by
  cases h with
  | itself => rfl
  | step s => exact absurd rfl (hq s)
  | test s _ => exact absurd rfl (hq s)

namespace Cursor

variable [Item α]

/-! ## Intersections -/

/-- **What a request makes of an intersection keeps what its children keep**, and the error of
the intersection if it has one. -/
theorem after_probe_keeps (uid : Uid) {p : BasicPlan α} {os : List (BasicPlan α)} {q : Request α}
    {P : Cursor p → Prop} {Q : Cursors os → Prop}
    (hP : ∀ q', q.PassesOn q' → ∀ c, P c → P (q'.after c))
    (hQ : ∀ q', q.PassesOn q' → (∀ s, q' ≠ .next s) → ∀ cs cs', Touched q' cs cs' → Q cs → Q cs')
    (e : Option QueryError) {c : Cursor p} {cs : Cursors os} (hc : P c) (hcs : Q cs) :
    ∃ e' c' cs', q.after (.probe e c cs : Cursor (.probe uid p os)) = .probe e' c' cs' ∧
      P c' ∧ Q cs' ∧ (e.isSome = true → e' = e) := by
  by_cases hnext : ∃ s, q = .next s
  · obtain ⟨s, rfl⟩ := hnext
    have hstep (c : Cursor p) (h : P c) : P (next .clear c).2 := hP _ (.step s) c h
    have htest (x : α) (cs : Cursors os) (h : Q cs) : Q (containsAll .clear x cs).2 :=
      hQ _ (.test s x) nofun cs _ (touched_containsAll .clear x cs) h
    have hends : ProbeEnds s P Q c cs e (next s (.probe e c cs : Cursor (.probe uid p os))) :=
      next_probe_ends hstep htest hc hcs e s
    show ∃ e' c' cs', (next s (.probe e c cs : Cursor (.probe uid p os))).2 = _ ∧ _
    generalize next s (.probe e c cs : Cursor (.probe uid p os)) = answer at hends ⊢
    cases hends with
    | stopped e => exact ⟨some e, c, cs, rfl, hc, hcs, fun _ => rfl⟩
    | @fired e _ => exact ⟨some e, c, cs, rfl, hc, hcs, nofun⟩
    | @searched _ e c' cs' _ h =>
      refine ⟨e, c', cs', rfl, ?_, ?_, nofun⟩
      · cases h with
        | @spent c₀ _ _ hc₀ _ hno =>
          have hc' := hstep c₀ hc₀
          rwa [hno] at hc'
        | @found c₀ _ _ _ _ hc₀ _ hyes _ _ =>
          have hc' := hstep c₀ hc₀
          rwa [hyes] at hc'
        | @fault c₀ _ _ _ _ _ hc₀ _ hyes _ _ _ =>
          have hc' := hstep c₀ hc₀
          rwa [hyes] at hc'
      · cases h with
        | spent _ hcs₀ _ => exact hcs₀
        | @found _ _ cs₀ _ x _ hcs₀ _ _ hall =>
          have hcs' := htest x cs₀ hcs₀
          rwa [hall] at hcs'
        | @fault _ _ cs₀ _ x _ _ hcs₀ _ _ hall _ =>
          have hcs' := htest x cs₀ hcs₀
          rwa [hall] at hcs'
  · obtain ⟨cs', hafter, htouched⟩ := after_probe uid (not_exists.1 hnext) e c cs
    exact ⟨e, _, cs', hafter, hP q (.itself q) c hc,
      hQ q (.itself q) (not_exists.1 hnext) cs cs' htouched hcs, fun _ => rfl⟩

end Cursor

/-! ## Leaves -/

/-- What a request makes of a leaf's cursor. -/
def RowSet.after [BEq α] (leaf : RowSet α) (q : Request α) (c : RowCursor) : RowCursor :=
  match q with
  | .next s => (leaf.next s c).2
  | .nextPath s => (leaf.nextPath s c).2
  | .contains s x => (leaf.contains s x c).2
  | .rewind => c.rewind
  | .close => c.close.2
  | .read => c

namespace Cursor

theorem after_fixed_eq [Item α] (uid : Uid) (leaf : RowSet α) (q : Request α) (c : RowCursor) :
    q.after (.fixed c : Cursor (.fixed uid leaf : BasicPlan α)) = .fixed (leaf.after q c) := by
  cases q <;> rfl

end Cursor

theorem RowSet.makes_after [Item α] (leaf : RowSet α) (q : Request α) (c : RowCursor) :
    leaf.Makes c q (leaf.after q c) := by
  obtain ⟨c', hafter, hmakes⟩ := Cursor.after_fixed ⟨0⟩ leaf q c
  rw [Cursor.after_fixed_eq] at hafter
  cases hafter
  exact hmakes

namespace Cursor

mutual

/-- The leaves with rows in the tree, in order, each with its cursor. -/
def leaves : {p : BasicPlan α} → Cursor p → List (RowSet α × RowCursor)
  | .fixed _ leaf, .fixed c => [(leaf, c)]
  | _, .probe _ c cs => leaves c ++ allLeaves cs
  | _, _ => []

/-- The leaves with rows in several trees, one tree after the other. -/
def allLeaves : {ps : List (BasicPlan α)} → Cursors ps → List (RowSet α × RowCursor)
  | _, .nil => []
  | _, .cons c cs => leaves c ++ allLeaves cs

end

section Equations

variable {uid : Uid} {p : BasicPlan α} {os : List (BasicPlan α)} {e : Option QueryError}
  {c : Cursor p} {cs : Cursors os}

theorem leaves_probe : leaves (.probe e c cs : Cursor (.probe uid p os)) =
    leaves c ++ allLeaves cs := rfl

theorem allLeaves_cons : allLeaves (.cons c cs : Cursors (p :: os)) =
    leaves c ++ allLeaves cs := rfl

end Equations

/-- Does this hold of every leaf in a list? -/
def Everywhere (P : RowSet α → RowCursor → Prop) (ls : List (RowSet α × RowCursor)) : Prop :=
  ∀ l ∈ ls, P l.1 l.2

variable {P : RowSet α → RowCursor → Prop}

theorem everywhere_nil : Everywhere P [] := List.forall_mem_nil _

theorem everywhere_append {ls ls' : List (RowSet α × RowCursor)} :
    Everywhere P (ls ++ ls') ↔ Everywhere P ls ∧ Everywhere P ls' := List.forall_mem_append

theorem everywhere_null {uid : Uid} (c : Cursor (.null uid)) : Everywhere P (leaves c) := by
  cases c
  exact everywhere_nil

theorem everywhere_error {uid : Uid} {e : QueryError} (c : Cursor (.error uid e)) :
    Everywhere P (leaves c) := by
  cases c
  exact everywhere_nil

theorem everywhere_fixed {uid : Uid} {leaf : RowSet α} {c : RowCursor} :
    Everywhere P (leaves (.fixed c : Cursor (.fixed uid leaf))) ↔ P leaf c :=
  List.forall_mem_singleton

theorem everywhere_startAll {ps : List (BasicPlan α)}
    (hps : ∀ p ∈ ps, Everywhere P (leaves (start p))) :
    Everywhere P (allLeaves (startAll ps)) := by
  induction ps with
  | nil => exact everywhere_nil
  | cons p ps ih =>
    exact everywhere_append.2 ⟨hps p List.mem_cons_self,
      ih fun q hq => hps q (List.mem_cons_of_mem _ hq)⟩

/-- What holds of a newly built leaf holds of every leaf of a newly built tree. -/
theorem everywhere_start (h : ∀ leaf, P leaf .start) (p : BasicPlan α) :
    Everywhere P (leaves (start p)) := by
  induction p using BasicPlan.induct with
  | null uid => exact everywhere_null _
  | error uid e => exact everywhere_error _
  | fixed uid leaf => exact everywhere_fixed.2 (h leaf)
  | probe uid p os ih ihos => exact everywhere_append.2 ⟨ih, everywhere_startAll ihos⟩

variable [Item α]

theorem everywhere_touched {q : Request α} {ps : List (BasicPlan α)}
    (hps : ∀ p ∈ ps, ∀ c : Cursor p, Everywhere P (leaves c) → Everywhere P (leaves (q.after c))) :
    ∀ {cs cs' : Cursors ps}, Touched q cs cs' → Everywhere P (allLeaves cs) →
      Everywhere P (allLeaves cs') := by
  induction ps with
  | nil =>
    intro cs cs' _ _
    cases cs'
    exact everywhere_nil
  | cons p ps ih =>
    intro cs cs' htouched h
    cases htouched with
    | none _ => exact h
    | cons c htouched =>
      obtain ⟨hc, hcs⟩ := everywhere_append.1 h
      exact everywhere_append.2 ⟨hps p List.mem_cons_self c hc,
        ih (fun p hp => hps p (List.mem_cons_of_mem _ hp)) htouched hcs⟩

/-- **What a leaf keeps, every leaf of a tree keeps**, if the leaf keeps it whatever a request to
the root may pass on to it. -/
theorem everywhere_after {p : BasicPlan α} : ∀ {q : Request α},
    (∀ q', q.PassesOn q' → ∀ leaf c, P leaf c → P leaf (leaf.after q' c)) →
    ∀ {c : Cursor p}, Everywhere P (leaves c) → Everywhere P (leaves (q.after c)) := by
  induction p using BasicPlan.induct with
  | null uid => exact fun _ _ _ => everywhere_null _
  | error uid e => exact fun _ _ _ => everywhere_error _
  | fixed uid leaf =>
    intro q hq c h
    cases c with
    | fixed c =>
      rw [after_fixed_eq]
      exact everywhere_fixed.2 (hq q (.itself q) leaf c (everywhere_fixed.1 h))
  | probe uid p os ih ihos =>
    intro q hq c h
    cases c with
    | probe e c cs =>
      have hbelow (q' : Request α) (hq' : q.PassesOn q') :
          ∀ q'', q'.PassesOn q'' → ∀ leaf c, P leaf c → P leaf (leaf.after q'' c) :=
        fun q'' hq'' => hq q'' (hq'.trans hq'')
      obtain ⟨hc, hcs⟩ := everywhere_append.1 h
      obtain ⟨e', c', cs', hafter, hc', hcs', -⟩ := after_probe_keeps uid
        (P := fun c => Everywhere P (leaves c)) (Q := fun cs => Everywhere P (allLeaves cs))
        (fun q' hq' c hc => ih (hbelow q' hq') hc)
        (fun q' hq' _ cs cs' htouched hcs => everywhere_touched
          (fun o ho c hc => ihos o ho (hbelow q' hq') hc) htouched hcs) e hc hcs
      rw [hafter]
      exact everywhere_append.2 ⟨hc', hcs'⟩

end Cursor

end QueryPlan
