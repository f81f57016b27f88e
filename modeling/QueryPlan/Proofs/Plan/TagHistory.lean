import QueryPlan.Proofs.Plan.NameOrder

/-!
# What the tags of a node were given

Nodes are given names and bindings one at a time, take over those of other nodes, or have what
another node has from then on.  Beside its tags a record can be kept of a node, which forgets
nothing: all names and bindings that it was given, in order, as often as it was given them.  To
take over another's names is to be given all that the other was ever given.

The tags are the record in short.  They have its names once, in the order in which they first came,
and of its bindings the last one for each name.

* `TagRecord.tags` — a record in short.
* `TagRecord.tags_append` — records one behind the other are merged in short.
* `TagStep.applyAll_fresh` — whatever is done, the tags of the nodes are their records in short.
* `TagStep.tags_list_given` — **tags are an ordered set and an ordered map of what was given.**
-/

namespace QueryPlan

variable {α : Type}

/-! ## Records -/

/-- All that the tags of a node were ever given. -/
structure TagRecord (α : Type) where
  /-- The names for the current result, in order, as often as they were given. -/
  live : List String
  /-- The fixed bindings, in order, earlier ones of the same name included. -/
  fixed : List (String × α)

namespace TagRecord

/-- Nothing was given yet. -/
def empty : TagRecord α := ⟨[], []⟩

/-- One record goes on with another. -/
instance : Append (TagRecord α) := ⟨fun r s => ⟨r.live ++ s.live, r.fixed ++ s.fixed⟩⟩

theorem empty_append (r : TagRecord α) : empty ++ r = r := rfl

theorem append_empty (r : TagRecord α) : r ++ empty = r := by
  show mk (r.live ++ []) (r.fixed ++ []) = r
  rw [List.append_nil, List.append_nil]

theorem append_assoc (r s t : TagRecord α) : r ++ s ++ t = r ++ (s ++ t) := by
  show mk (r.live ++ s.live ++ t.live) (r.fixed ++ s.fixed ++ t.fixed) =
    mk (r.live ++ (s.live ++ t.live)) (r.fixed ++ (s.fixed ++ t.fixed))
  rw [List.append_assoc, List.append_assoc]

/-- What a record comes down to: its names, each once, and the last binding of each name. -/
def tags (r : TagRecord α) : Tags α :=
  ⟨r.live.foldl Tags.insertName [], Bindings.empty.overlay ⟨r.fixed⟩⟩

theorem lists_live (r : TagRecord α) : Tags.Lists r.tags.live r.live :=
  Tags.lists_foldl_insertName r.live

theorem lists_fixed (r : TagRecord α) :
    Tags.Lists r.tags.fixed.names (r.fixed.map Prod.fst) := by
  have hnames : r.tags.fixed.names = (r.fixed.map Prod.fst).foldl Tags.insertName [] :=
    Bindings.names_overlay _ _
  rw [hnames]
  exact Tags.lists_foldl_insertName _

theorem get?_fixed (r : TagRecord α) (k : String) :
    r.tags.fixed.get? k = Bindings.last? ⟨r.fixed⟩ k :=
  Bindings.get?_overlay_empty _ k

theorem mem_fixed_iff (r : TagRecord α) (k : String) (x : α) :
    (k, x) ∈ r.tags.fixed.entries ↔ Bindings.last? ⟨r.fixed⟩ k = some x := by
  rw [← get?_fixed]
  exact Bindings.mem_entries_iff r.lists_fixed.nodup

/-- **To take over what a node has is to be given all that it was given.** -/
theorem tags_append (r s : TagRecord α) : (r ++ s).tags = r.tags.merge s.tags := by
  have hlive : (r ++ s).tags.live = s.tags.live.foldl Tags.insertName r.tags.live := by
    show (r.live ++ s.live).foldl Tags.insertName [] = _
    rw [List.foldl_append]
    exact (Tags.foldl_foldl_insertName r.tags.live [] s.live).symm
  have hfixed : (r ++ s).tags.fixed = r.tags.fixed.overlay s.tags.fixed := by
    have happend : (r ++ s).tags.fixed = r.tags.fixed.overlay ⟨s.fixed⟩ := List.foldl_append
    rw [happend]
    exact (Bindings.overlay_overlay_empty r.lists_fixed.nodup ⟨s.fixed⟩).symm
  rw [Tags.merge, ← hlive, ← hfixed]

/-- Tags hold nothing only if nothing was given. -/
theorem isEmpty_tags_iff (r : TagRecord α) :
    r.tags.isEmpty = true ↔ r.live = [] ∧ r.fixed = [] := by
  have hfixed : r.tags.fixed.names = [] ↔ r.fixed.map Prod.fst = [] := r.lists_fixed.eq_nil_iff
  rw [Bindings.names, List.map_eq_nil_iff, List.map_eq_nil_iff] at hfixed
  rw [Tags.isEmpty, Bool.and_eq_true, List.isEmpty_iff, List.isEmpty_iff,
    r.lists_live.eq_nil_iff, hfixed]

end TagRecord

/-! ## The nodes of a plan -/

namespace TagStep

/-- What steps make of the tags. -/
def applyAll (bank : List (Tags α)) (steps : List (TagStep α)) : List (Tags α) :=
  steps.foldl apply bank

/-- The tags of `n` nodes that were given nothing yet. -/
def fresh (n : Nat) : List (Tags α) := List.replicate n .empty

/-- The record of a node; one that does not exist was given nothing. -/
def recordAt (book : List (TagRecord α)) (i : Nat) : TagRecord α := book[i]?.getD .empty

/-- What a step adds to the records. -/
def note (book : List (TagRecord α)) : TagStep α → List (TagRecord α)
  | .add target name => book.modify target (· ++ ⟨[name], []⟩)
  | .fix target name x => book.modify target (· ++ ⟨[], [(name, x)]⟩)
  | .merge target source => book.modify target (· ++ recordAt book source)
  | .become target source => book.set target (recordAt book source)

/-- The records of `n` nodes after steps. -/
def noteAll (n : Nat) (steps : List (TagStep α)) : List (TagRecord α) :=
  steps.foldl note (List.replicate n .empty)

theorem tagsAt_map_tags (book : List (TagRecord α)) (i : Nat) :
    tagsAt (book.map TagRecord.tags) i = (recordAt book i).tags := by
  rw [tagsAt, recordAt, List.getElem?_map]
  cases book[i]? with
  | none => rfl
  | some r => rfl

/-- A change of a record shows in short. -/
theorem modify_map_tags {f : Tags α → Tags α} {g : TagRecord α → TagRecord α}
    (h : ∀ r, (g r).tags = f r.tags) (book : List (TagRecord α)) (target : Nat) :
    (book.map TagRecord.tags).modify target f = (book.modify target g).map TagRecord.tags := by
  refine List.ext_getElem? fun i => ?_
  rw [List.getElem?_modify, List.getElem?_map, List.getElem?_map, List.getElem?_modify]
  cases book[i]? with
  | none => rfl
  | some r => by_cases hi : target = i <;> simp [hi, h]

/-- **A step does to the tags what it does to the records in short.** -/
theorem apply_map_tags (book : List (TagRecord α)) (s : TagStep α) :
    apply (book.map TagRecord.tags) s = (note book s).map TagRecord.tags := by
  cases s with
  | add target name => exact modify_map_tags (fun r => r.tags_append _) book target
  | fix target name x => exact modify_map_tags (fun r => r.tags_append _) book target
  | merge target source =>
    show (book.map TagRecord.tags).modify target (·.merge (tagsAt (book.map TagRecord.tags) source))
      = _
    rw [tagsAt_map_tags]
    exact modify_map_tags (fun r => r.tags_append _) book target
  | become target source =>
    show (book.map TagRecord.tags).set target (tagsAt (book.map TagRecord.tags) source) = _
    rw [tagsAt_map_tags]
    exact List.map_set.symm

/-- **Whatever is done, the tags of the nodes are their records in short.** -/
theorem applyAll_fresh (n : Nat) (steps : List (TagStep α)) :
    applyAll (fresh n) steps = (noteAll n steps).map TagRecord.tags := by
  induction steps using List.reverseRecOn with
  | nil =>
    show List.replicate n Tags.empty = (List.replicate n TagRecord.empty).map TagRecord.tags
    rw [List.map_replicate]
    rfl
  | append_singleton steps s ih =>
    rw [applyAll, List.foldl_append, noteAll, List.foldl_append]
    exact (congrArg (apply · s) ih).trans (apply_map_tags _ s)

theorem tagsAt_applyAll_fresh (n : Nat) (steps : List (TagStep α)) (i : Nat) :
    tagsAt (applyAll (fresh n) steps) i = (recordAt (noteAll n steps) i).tags := by
  rw [applyAll_fresh, tagsAt_map_tags]

/-- **Tags are an ordered set and an ordered map.**  Whatever nodes are given, take over from each
other or from themselves, or have from each other from then on: a node's tags have exactly the
names that it was ever given, each once, in the order in which they first came; its fixed bindings
have exactly the names that were ever bound for it, each once and in that order, and bind each to
what was given for it last; and they are empty only if nothing was ever given. -/
theorem tags_list_given (n : Nat) (steps : List (TagStep α)) (i : Nat) :
    let t := tagsAt (applyAll (fresh n) steps) i
    let r := recordAt (noteAll n steps) i
    Tags.Lists t.live r.live ∧
    Tags.Lists t.fixed.names (r.fixed.map Prod.fst) ∧
    (∀ k x, (k, x) ∈ t.fixed.entries ↔ Bindings.last? ⟨r.fixed⟩ k = some x) ∧
    (t.isEmpty = true ↔ r.live = [] ∧ r.fixed = []) := by
  intro t r
  have ht : t = r.tags := tagsAt_applyAll_fresh n steps i
  rw [ht]
  exact ⟨r.lists_live, r.lists_fixed, r.mem_fixed_iff, r.isEmpty_tags_iff⟩

end TagStep

end QueryPlan
