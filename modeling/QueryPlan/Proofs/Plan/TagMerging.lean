import QueryPlan.Proofs.Plan.TagHistory

/-!
# Tags that are taken over

A node that takes another's place takes over its tags.  That is to be given all that the other was
given, so taking over is associative, has the empty tags as its unit, and brings nothing new the
second time.

The names that a node has for its current result and those of its fixed bindings are kept apart,
but they are published into one map, the fixed ones first.  So a name that the new node has for its
own result hides a fixed binding that it takes over: the map then has the new node's result under
that name, and not what the replaced node would have written.  Every other name keeps its binding.

* `TagRecord.merge_self` — what was given already brings nothing new.
* `TagRecord.bound_tags` — what a node binds a name to, read off its record.
* `TagStep.merging_is_monoid` — **taking over is an idempotent monoid**, and the other node keeps
  what it has.
* `TagStep.merged_tags_bind` — **which of the replaced node's bindings the new node keeps.**
* `TagStep.fixed_name_is_hidden` — one that it does not keep.
-/

namespace QueryPlan

variable {α : Type}

namespace TagRecord

/-- Bindings that are written over themselves stay as they are. -/
theorem overlay_self (r : TagRecord α) : r.tags.fixed.overlay r.tags.fixed = r.tags.fixed := by
  have hnodup : r.tags.fixed.names.Nodup := r.lists_fixed.nodup
  have hnames : (r.tags.fixed.overlay r.tags.fixed).names = r.tags.fixed.names := by
    rw [Bindings.names_overlay]
    exact Tags.foldl_insertName_of_subset fun _ hn => hn
  refine Bindings.eq_of_get? (hnames ▸ hnodup) hnames fun k => ?_
  rw [Bindings.get?_overlay, Bindings.last?_eq_get? hnodup, Option.or_self]

/-- **Names and bindings that are there already bring nothing new.** -/
theorem merge_self (r : TagRecord α) : r.tags.merge r.tags = r.tags := by
  have hlive : r.tags.live.foldl Tags.insertName r.tags.live = r.tags.live :=
    Tags.foldl_insertName_of_subset fun _ hn => hn
  rw [Tags.merge, hlive, r.overlay_self]

theorem merge_assoc (r s t : TagRecord α) :
    (r.tags.merge s.tags).merge t.tags = r.tags.merge (s.tags.merge t.tags) := by
  rw [← tags_append, ← tags_append, ← tags_append, ← tags_append, append_assoc]

theorem empty_merge (r : TagRecord α) : Tags.empty.merge r.tags = r.tags := by
  have h := tags_append empty r
  rw [empty_append] at h
  exact h.symm

theorem merge_empty (r : TagRecord α) : r.tags.merge Tags.empty = r.tags := by
  have h := tags_append r empty
  rw [append_empty] at h
  exact h.symm

theorem merge_merge_self (r s : TagRecord α) :
    (r.tags.merge s.tags).merge s.tags = r.tags.merge s.tags := by
  rw [merge_assoc, merge_self]

/-- **What a node binds a name to**: its current result, if the name was ever given for that, and
otherwise what the name was last fixed to. -/
theorem bound_tags (r : TagRecord α) (current : Option α) (k : String) :
    r.tags.bound current k =
      (if k ∈ r.live then current else none).or (Bindings.last? ⟨r.fixed⟩ k) := by
  have hlast : r.tags.fixed.last? k = Bindings.last? ⟨r.fixed⟩ k :=
    (Bindings.last?_eq_get? r.lists_fixed.nodup k).trans (r.get?_fixed k)
  rw [Tags.bound, hlast]
  simp only [r.lists_live.mem_iff]

/-- What a node that has taken over another's tags binds a name to. -/
theorem bound_merge (r s : TagRecord α) (current : Option α) (k : String) :
    (r.tags.merge s.tags).bound current k =
      (if k ∈ r.live ∨ k ∈ s.live then current else none).or
        ((Bindings.last? ⟨s.fixed⟩ k).or (Bindings.last? ⟨r.fixed⟩ k)) := by
  have hlive : k ∈ (r ++ s).live ↔ k ∈ r.live ∨ k ∈ s.live := List.mem_append
  have hfixed : Bindings.last? ⟨(r ++ s).fixed⟩ k =
      (Bindings.last? ⟨s.fixed⟩ k).or (Bindings.last? ⟨r.fixed⟩ k) := Bindings.last?_append _ _ k
  rw [← tags_append, bound_tags, hfixed]
  simp only [hlive]

/-- A binding is taken over, unless the node has the name for its current result and the other one
had not. -/
theorem bound_merge_of_bound (r s : TagRecord α) {current : Option α} {k : String}
    (h : (s.tags.bound current k).isSome = true) :
    (r.tags.merge s.tags).bound current k =
      (if k ∈ r.tags.live ∧ k ∉ s.tags.live then current else none).or
        (s.tags.bound current k) := by
  simp only [r.lists_live.mem_iff, s.lists_live.mem_iff]
  rw [bound_tags] at h
  rw [bound_merge, bound_tags]
  by_cases hs : k ∈ s.live
  · -- both write the current result, or else what the other node had fixed, so that nothing older
    -- shows
    rw [if_pos hs] at h
    rw [if_pos (Or.inr hs), if_neg fun hrs => hrs.2 hs, if_pos hs, ← Option.or_assoc,
      Option.or_of_isSome h]
    rfl
  · rw [if_neg hs, Option.none_or] at h
    rw [if_neg hs, Option.none_or, Option.or_of_isSome h]
    simp only [hs, or_false, not_false_eq_true, and_true]

end TagRecord

namespace TagStep

/-- Taking over changes one node's tags and no other's. -/
theorem tagsAt_apply_merge (bank : List (Tags α)) (i j m : Nat) :
    tagsAt (apply bank (.merge i j)) m =
      if m = i ∧ i < bank.length then (tagsAt bank i).merge (tagsAt bank j)
      else tagsAt bank m := by
  have happly : apply bank (.merge i j) = bank.modify i (·.merge (tagsAt bank j)) := rfl
  rw [happly, tagsAt, List.getElem?_modify]
  by_cases hm : m = i
  · subst hm
    by_cases hlt : m < bank.length <;> simp [tagsAt, hlt]
  · simp [tagsAt, hm, Ne.symm hm]

theorem length_apply (bank : List (Tags α)) (s : TagStep α) :
    (apply bank s).length = bank.length := by
  cases s with
  | add target name => exact List.length_modify ..
  | fix target name x => exact List.length_modify ..
  | merge target source => exact List.length_modify ..
  | become target source => exact List.length_set ..

theorem length_applyAll_fresh (n : Nat) (steps : List (TagStep α)) :
    (applyAll (fresh n) steps).length = n := by
  have hsteps (bank : List (Tags α)) : (applyAll bank steps).length = bank.length := by
    induction steps generalizing bank with
    | nil => rfl
    | cons s steps ih => exact (ih (apply bank s)).trans (length_apply bank s)
  rw [hsteps]
  exact List.length_replicate

/-- **Taking over is an idempotent monoid.**  For any nodes, whatever has been done with them:
taking over is associative; to take over nothing, or to take over with nothing, changes nothing;
nor does a node get anything from itself, or from another node a second time.  And a node whose
tags are taken over keeps them as they are. -/
theorem merging_is_monoid (n : Nat) (steps : List (TagStep α)) (i j k : Nat) :
    let bank := applyAll (fresh n) steps
    let a := tagsAt bank i
    let b := tagsAt bank j
    let c := tagsAt bank k
    (a.merge b).merge c = a.merge (b.merge c) ∧
    Tags.empty.merge a = a ∧
    a.merge .empty = a ∧
    a.merge a = a ∧
    (a.merge b).merge b = a.merge b ∧
    ∀ m, tagsAt (apply bank (.merge i j)) m =
      if m = i ∧ i < n then a.merge b else tagsAt bank m := by
  intro bank a b c
  have ha : a = (recordAt (noteAll n steps) i).tags := tagsAt_applyAll_fresh n steps i
  have hb : b = (recordAt (noteAll n steps) j).tags := tagsAt_applyAll_fresh n steps j
  have hc : c = (recordAt (noteAll n steps) k).tags := tagsAt_applyAll_fresh n steps k
  refine ⟨?_, ?_, ?_, ?_, ?_, fun m => ?_⟩
  · rw [ha, hb, hc, TagRecord.merge_assoc]
  · rw [ha, TagRecord.empty_merge]
  · rw [ha, TagRecord.merge_empty]
  · rw [ha, TagRecord.merge_self]
  · rw [ha, hb, TagRecord.merge_merge_self]
  · rw [tagsAt_apply_merge, length_applyAll_fresh]

/-- **Which bindings are kept by a node that takes over another's tags.**  Whatever has been done
with the nodes, wherever the new one stands and whatever map it writes to: under a name that the
replaced node binds, it writes what the replaced node would write, unless it has the name for its
own current result, while the replaced node had it as a fixed binding only; then it writes its
current result, if there is one.  So the binding is kept exactly if the name is not such a name, or
there is no current result, or that is what the replaced node had fixed. -/
theorem merged_tags_bind (n : Nat) (steps : List (TagStep α)) (i j : Nat) (current : Option α)
    (dst : Bindings α) (k : String) :
    let a := tagsAt (applyAll (fresh n) steps) i
    let b := tagsAt (applyAll (fresh n) steps) j
    ((b.publish current .empty).get? k).isSome = true →
      ((a.merge b).publish current dst).get? k =
        (if k ∈ a.live ∧ k ∉ b.live then current else none).or ((b.publish current dst).get? k) ∧
      (((a.merge b).publish current dst).get? k = (b.publish current dst).get? k ↔
        (k ∈ a.live → k ∈ b.live ∨ current = none ∨ current = b.fixed.get? k)) := by
  intro a b hwrites
  have ha : a = (recordAt (noteAll n steps) i).tags := tagsAt_applyAll_fresh n steps i
  have hb : b = (recordAt (noteAll n steps) j).tags := tagsAt_applyAll_fresh n steps j
  have hk : (b.bound current k).isSome = true := by
    have hempty : (Bindings.empty : Bindings α).get? k = none := rfl
    rwa [Tags.get?_publish, hempty, Option.or_none] at hwrites
  have hmerged : ((a.merge b).publish current dst).get? k =
      (if k ∈ a.live ∧ k ∉ b.live then current else none).or
        ((b.publish current dst).get? k) := by
    rw [hb] at hk
    rw [Tags.get?_publish, Tags.get?_publish, ← Option.or_assoc, ha, hb,
      TagRecord.bound_merge_of_bound _ _ hk]
  refine ⟨hmerged, ?_⟩
  by_cases hhidden : k ∈ a.live ∧ k ∉ b.live
  · have hfixed : (b.publish current dst).get? k = b.fixed.get? k := by
      have hbound : b.bound current k = b.fixed.get? k := by
        rw [Tags.bound, if_neg hhidden.2, Option.none_or, hb]
        exact Bindings.last?_eq_get? (TagRecord.lists_fixed _).nodup k
      rw [Tags.get?_publish, Option.or_of_isSome hk, hbound]
    rw [hmerged, if_pos hhidden, hfixed]
    cases current with
    | none => simp
    | some x => simp [hhidden.1, hhidden.2]
  · rw [hmerged, if_neg hhidden]
    exact iff_of_true Option.none_or fun hlive => Or.inl (by_contra fun h => hhidden ⟨hlive, h⟩)

/-- Two nodes, the second of which has fixed the first one's name to what the first stands on. -/
def sharedName : List (TagStep Ref) :=
  [.add 0 "x", .fix 0 "y" (.ofId 1), .add 1 "y", .fix 1 "x" (.ofId 9), .fix 1 "x" (.ofId 5),
    .merge 1 1]

theorem merged_tags_bind_sharedName :
    let a := tagsAt (applyAll (fresh 2) sharedName) 0
    let b := tagsAt (applyAll (fresh 2) sharedName) 1
    let dst := Bindings.empty.insert "x" (Ref.ofId 3)
    ((b.publish (some (.ofId 5)) .empty).get? "x").isSome = true ∧
    ((a.merge b).publish (some (.ofId 5)) dst).get? "x" =
      (b.publish (some (.ofId 5)) dst).get? "x" := by
  intro a b dst
  have hwrites : ((b.publish (some (.ofId 5)) .empty).get? "x").isSome = true := by decide
  have hfixed : some (Ref.ofId 5) = b.fixed.get? "x" := by decide
  have hkept := (merged_tags_bind 2 sharedName 0 1 (some (.ofId 5)) dst "x" hwrites).2
  exact ⟨hwrites, hkept.2 fun _ => Or.inr (Or.inr hfixed)⟩

/-- Two nodes with a name that the first has for its current result and the second as a fixed
binding. -/
def oneNameTwoKinds : List (TagStep Ref) := [.add 0 "x", .fix 1 "x" (.ofId 9)]

/-- **A fixed binding can be hidden by a name of the node that takes it over**, whose current
result is then written in its place. -/
theorem fixed_name_is_hidden :
    let a := tagsAt (applyAll (fresh 2) oneNameTwoKinds) 0
    let b := tagsAt (applyAll (fresh 2) oneNameTwoKinds) 1
    (b.publish (some (.ofId 5)) .empty).get? "x" = some (.ofId 9) ∧
    ((a.merge b).publish (some (.ofId 5)) .empty).get? "x" = some (.ofId 5) ∧
    Ref.ofId 5 ≠ Ref.ofId 9 := by
  decide

end TagStep

end QueryPlan
