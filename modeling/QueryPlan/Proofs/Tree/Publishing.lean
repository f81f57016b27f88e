import QueryPlan.Proofs.Tree.Unfolding

/-!
# What a tree publishes

A tree writes its bindings over a map that it is handed: a leaf first its fixed bindings, then its
result under its names, then the witness under a name of its own; an intersection lets its children
write one after the other.  Whatever is written later replaces what was written before under the
same name, and nothing is ever taken out.

So for each name only the last write counts, and it does not depend on the map.

* `Bindings.get?_overlay` — a map written over another.
* `RowSet.bound`, `Cursor.bound` — what a leaf and a tree bind a name to.
* `Cursor.publish_overlays` — **a tree writes exactly that over a map, and once is enough.**
-/

namespace QueryPlan

variable {α : Type}

/-! ## Writing several bindings -/

namespace Bindings

/-- The names that are bound, in order. -/
def names (b : Bindings α) : List String := b.entries.map Prod.fst

theorem get?_cons (n : String) (x : α) (es : List (String × α)) (k : String) :
    get? ⟨(n, x) :: es⟩ k = if k = n then some x else get? ⟨es⟩ k :=
  lookup_entry n x es k

theorem get?_eq_none {b : Bindings α} {k : String} (h : k ∉ b.names) : b.get? k = none :=
  List.lookup_eq_none_iff.2 fun e he =>
    bne_iff_ne.2 fun hk => h (List.mem_map.2 ⟨e, he, hk.symm⟩)

/-- What the last of the entries for a name binds it to. -/
def last? (b : Bindings α) (name : String) : Option α := b.entries.reverse.lookup name

theorem last?_cons (n : String) (x : α) (es : List (String × α)) (k : String) :
    last? ⟨(n, x) :: es⟩ k = (last? ⟨es⟩ k).or (if k = n then some x else none) := by
  show (List.reverse ((n, x) :: es)).lookup k = _
  rw [List.reverse_cons, List.lookup_append, lookup_entry]
  rfl

/-- If each name has one entry, that is the last one. -/
theorem last?_eq_get? {b : Bindings α} (h : b.names.Nodup) (k : String) :
    b.last? k = b.get? k := by
  obtain ⟨es⟩ := b
  induction es with
  | nil => rfl
  | cons e es ih =>
    obtain ⟨n, x⟩ := e
    obtain ⟨hn, hes⟩ := List.nodup_cons.1 h
    rw [last?_cons, ih hes, get?_cons]
    by_cases hk : k = n
    · subst hk
      rw [get?_eq_none hn, if_pos rfl]
      rfl
    · rw [if_neg hk, if_neg hk, Option.or_none]

/-- **A map written over another binds what it binds**, and leaves the rest. -/
theorem get?_overlay (b c : Bindings α) (k : String) :
    (b.overlay c).get? k = (c.last? k).or (b.get? k) := by
  obtain ⟨es⟩ := c
  induction es generalizing b with
  | nil => rfl
  | cons e es ih =>
    obtain ⟨n, x⟩ := e
    have hstep : b.overlay ⟨(n, x) :: es⟩ = (b.insert n x).overlay ⟨es⟩ := rfl
    rw [hstep, ih, get?_insert, last?_cons, Option.or_assoc]
    by_cases hk : k = n
    · rw [if_pos hk, if_pos hk]
      rfl
    · rw [if_neg hk, if_neg hk]
      rfl

/-- The same thing written under several names. -/
theorem get?_foldl_insert (x : α) (names : List String) (b : Bindings α) (k : String) :
    (names.foldl (fun b name => b.insert name x) b).get? k =
      (if k ∈ names then some x else none).or (b.get? k) := by
  induction names generalizing b with
  | nil => rfl
  | cons n names ih =>
    rw [List.foldl_cons, ih, get?_insert]
    by_cases hmem : k ∈ names
    · rw [if_pos hmem, if_pos (List.mem_cons_of_mem _ hmem)]
      rfl
    · by_cases hk : k = n
      · rw [if_neg hmem, if_pos hk, if_pos (List.mem_cons.2 (Or.inl hk))]
        rfl
      · rw [if_neg hmem, if_neg hk, if_neg (List.not_mem_cons_of_ne_of_not_mem hk hmem)]

end Bindings

/-! ## Leaves -/

/-- What tags bind a name to: the current result if it is one of theirs and there is a result,
and otherwise what it is fixed to. -/
def Tags.bound (t : Tags α) (current : Option α) (k : String) : Option α :=
  (if k ∈ t.live then current else none).or (t.fixed.last? k)

theorem Tags.get?_publish (t : Tags α) (current : Option α) (dst : Bindings α) (k : String) :
    (t.publish current dst).get? k = (t.bound current k).or (dst.get? k) := by
  rw [bound, Option.or_assoc]
  cases current with
  | none =>
    have hpublish : t.publish none dst = dst.overlay t.fixed := rfl
    rw [hpublish, Bindings.get?_overlay, ite_self]
    rfl
  | some x =>
    have hpublish : t.publish (some x) dst =
        t.live.foldl (fun dst name => dst.insert name x) (dst.overlay t.fixed) := rfl
    rw [hpublish, Bindings.get?_foldl_insert, Bindings.get?_overlay]

namespace RowSet

/-- What a leaf binds a name to: the witness it stands on if that is the witness's name and there
is one, and otherwise what its tags bind it to. -/
def bound (leaf : RowSet α) (c : RowCursor) (k : String) : Option α :=
  (if leaf.witnessTag = some k then leaf.witness c else none).or
    (leaf.tags.bound (leaf.result c) k)

theorem get?_publish (leaf : RowSet α) (c : RowCursor) (dst : Bindings α) (k : String) :
    (leaf.publish c dst).get? k = (leaf.bound c k).or (dst.get? k) := by
  rw [bound, Option.or_assoc, ← Tags.get?_publish, publish]
  cases htag : leaf.witnessTag with
  | none => rfl
  | some tag =>
    cases hx : leaf.witness c with
    | none =>
      rw [ite_self]
      rfl
    | some x =>
      dsimp only
      rw [Bindings.get?_insert]
      by_cases hk : k = tag
      · rw [if_pos hk, if_pos (congrArg some hk.symm)]
        rfl
      · rw [if_neg hk, if_neg fun h => hk (Option.some.inj h).symm]
        rfl

end RowSet

/-! ## Trees -/

namespace Cursor

mutual

/-- What a tree binds a name to: a leaf on its own, an intersection as the last of its children
that binds it. -/
def bound : {p : BasicPlan α} → Cursor p → String → Option α
  | .fixed _ leaf, .fixed c, k => leaf.bound c k
  | _, .probe _ c cs, k => (boundAll cs k).or (bound c k)
  | _, _, _ => none

/-- What the last of several trees that bind a name binds it to. -/
def boundAll : {ps : List (BasicPlan α)} → Cursors ps → String → Option α
  | _, .nil, _ => none
  | _, .cons c cs, k => (boundAll cs k).or (bound c k)

end

section Equations

variable {uid : Uid} {p : BasicPlan α} {os : List (BasicPlan α)} {e : Option QueryError}
  {c : Cursor p} {cs : Cursors os}

theorem bound_fixed {leaf : RowSet α} {c : RowCursor} (k : String) :
    bound (.fixed c : Cursor (.fixed uid leaf)) k = leaf.bound c k := rfl

theorem bound_probe (k : String) :
    bound (.probe e c cs : Cursor (.probe uid p os)) k = (boundAll cs k).or (bound c k) := rfl

theorem boundAll_cons (k : String) :
    boundAll (.cons c cs : Cursors (p :: os)) k = (boundAll cs k).or (bound c k) := rfl

theorem publish_fixed {leaf : RowSet α} {c : RowCursor} (dst : Bindings α) :
    publish (.fixed c : Cursor (.fixed uid leaf : BasicPlan α)) dst = leaf.publish c dst := rfl

theorem publish_probe (dst : Bindings α) :
    publish (.probe e c cs : Cursor (.probe uid p os)) dst = publishAll cs (publish c dst) := rfl

theorem publishAll_cons (dst : Bindings α) :
    publishAll (.cons c cs : Cursors (p :: os)) dst = publishAll cs (publish c dst) := rfl

end Equations

/-- **What a map has after a tree has published**: what the tree binds, and otherwise what it
had. -/
theorem get?_publish {p : BasicPlan α} (c : Cursor p) : ∀ (dst : Bindings α) (k : String),
    (publish c dst).get? k = (bound c k).or (dst.get? k) := by
  induction p, c using induct
    (Q := fun _ cs => ∀ dst k, (publishAll cs dst).get? k = (boundAll cs k).or (dst.get? k)) with
  | null uid => exact fun _ _ => rfl
  | error uid e => exact fun _ _ => rfl
  | fixed uid leaf c =>
    intro dst k
    rw [publish_fixed, bound_fixed, RowSet.get?_publish]
  | probe uid p os e c cs ih ihcs =>
    intro dst k
    rw [publish_probe, bound_probe, Option.or_assoc, ihcs, ih]
  | nil dst k => rfl
  | cons p ps c cs ih ihcs dst k =>
    rw [publishAll_cons, boundAll_cons, Option.or_assoc, ihcs, ih]

variable [Item α]

/-- **Publishing is an overlay.**  Wherever the cursors of a tree stand, it binds some names, each
to one thing, and whatever map it publishes over then has these bindings and, for every other
name, what it had before.  So no name is lost, names the tree does not bind are left alone, and
publishing a second time makes no difference. -/
theorem publish_overlays {p : BasicPlan α} (c : Cursor p) :
    (∀ dst k, (Operator.publish c dst).get? k = (c.bound k).or (dst.get? k)) ∧
    (∀ dst k, (dst.get? k).isSome = true → ((Operator.publish c dst).get? k).isSome = true) ∧
    (∀ dst k, c.bound k = none → (Operator.publish c dst).get? k = dst.get? k) ∧
    (∀ dst k, (Operator.publish c (Operator.publish c dst)).get? k =
      (Operator.publish c dst).get? k) := by
  have hoverlay (dst : Bindings α) (k : String) :
      (Operator.publish c dst).get? k = (c.bound k).or (dst.get? k) := get?_publish c dst k
  refine ⟨hoverlay, fun dst k h => ?_, fun dst k h => ?_, fun dst k => ?_⟩
  · rw [hoverlay, Option.isSome_or, h, Bool.or_true]
  · rw [hoverlay, h]
    rfl
  · rw [hoverlay, hoverlay, ← Option.or_assoc, Option.or_self]

end Cursor

end QueryPlan
