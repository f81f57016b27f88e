import Mathlib.Data.List.Induction
import Mathlib.Data.List.Nodup
import QueryPlan.Proofs.Tree.Publishing

/-!
# Names in the order in which they came

A list that names are added to one by one, unless they are there, has each of them once, at the
place where it came first.  So have the names of bindings, since a name that is bound again stays
where it is.  What bindings do is therefore known from two things: their names in order, and what
each name is bound to.

* `Tags.Lists` — the names of a list, each once, in the order of their first places.
* `Tags.lists_foldl_insertName` — names that are added one by one are listed in that way.
* `Tags.foldl_foldl_insertName` — adding names is associative.
* `Bindings.names_overlay` — the names of a map written over another are added to its names.
* `Bindings.eq_of_get?` — **bindings with the same names that bind them to the same are equal.**
-/

namespace QueryPlan

variable {α : Type}

/-! ## Lists that hold each name once -/

namespace Tags

/-- `names` has the names of `given`, each once, in the order of their first places in `given`. -/
structure Lists (names given : List String) : Prop where
  /-- It has the names of the other list and no more. -/
  mem_iff : ∀ k, k ∈ names ↔ k ∈ given
  /-- It has each of them once. -/
  nodup : names.Nodup
  /-- Of two names the one whose first place comes first stands first. -/
  pairwise : names.Pairwise fun k m => given.idxOf k < given.idxOf m

theorem Lists.eq_nil_iff {names given : List String} (h : Lists names given) :
    names = [] ↔ given = [] := by
  rw [List.eq_nil_iff_forall_not_mem, List.eq_nil_iff_forall_not_mem]
  exact forall_congr' fun k => not_congr (h.mem_iff k)

theorem insertName_of_mem {names : List String} {n : String} (h : n ∈ names) :
    insertName names n = names := if_pos h

theorem insertName_of_not_mem {names : List String} {n : String} (h : n ∉ names) :
    insertName names n = names ++ [n] := if_neg h

theorem mem_insertName {names : List String} {n k : String} :
    k ∈ insertName names n ↔ k ∈ names ∨ k = n := by
  by_cases h : n ∈ names
  · rw [insertName_of_mem h]
    exact ⟨Or.inl, fun hk => hk.elim id fun hkn => hkn ▸ h⟩
  · rw [insertName_of_not_mem h, List.mem_append, List.mem_singleton]

theorem nodup_insertName {names : List String} (h : names.Nodup) (n : String) :
    (insertName names n).Nodup := by
  by_cases hn : n ∈ names
  · rwa [insertName_of_mem hn]
  · rw [insertName_of_not_mem hn, ← List.concat_eq_append]
    exact h.concat hn

theorem nodup_foldl_insertName {names more : List String} (h : names.Nodup) :
    (more.foldl insertName names).Nodup := by
  induction more generalizing names with
  | nil => exact h
  | cons n more ih => exact ih (nodup_insertName h n)

theorem mem_foldl_insertName {names more : List String} {k : String} :
    k ∈ more.foldl insertName names ↔ k ∈ names ∨ k ∈ more := by
  induction more generalizing names with
  | nil => simp
  | cons n more ih => rw [List.foldl_cons, ih, mem_insertName, List.mem_cons, or_assoc]

/-- Names that are there already change nothing. -/
theorem foldl_insertName_of_subset {names more : List String} (h : ∀ n ∈ more, n ∈ names) :
    more.foldl insertName names = names := by
  induction more with
  | nil => rfl
  | cons n more ih =>
    rw [List.foldl_cons, insertName_of_mem (h n List.mem_cons_self)]
    exact ih fun m hm => h m (List.mem_cons_of_mem n hm)

theorem foldl_insertName_insertName (names more : List String) (n : String) :
    (insertName more n).foldl insertName names = insertName (more.foldl insertName names) n := by
  by_cases h : n ∈ more
  · rw [insertName_of_mem h, insertName_of_mem (mem_foldl_insertName.2 (Or.inr h))]
  · rw [insertName_of_not_mem h, List.foldl_append]
    rfl

/-- It makes no difference whether further names are first added among themselves. -/
theorem foldl_foldl_insertName (names more further : List String) :
    (further.foldl insertName more).foldl insertName names =
      further.foldl insertName (more.foldl insertName names) := by
  induction further generalizing more with
  | nil => rfl
  | cons n further ih =>
    rw [List.foldl_cons, List.foldl_cons, ih, foldl_insertName_insertName]

theorem Lists.insertName {names given : List String} (h : Lists names given) (n : String) :
    Lists (insertName names n) (given ++ [n]) where
  mem_iff k := by rw [mem_insertName, h.mem_iff, List.mem_append, List.mem_singleton]
  nodup := nodup_insertName h.nodup n
  pairwise := by
    have hplace {k : String} (hk : k ∈ names) : (given ++ [n]).idxOf k = given.idxOf k :=
      List.idxOf_append_of_mem ((h.mem_iff k).1 hk)
    have hnames : names.Pairwise fun k m => (given ++ [n]).idxOf k < (given ++ [n]).idxOf m :=
      h.pairwise.imp_of_mem fun hk hm hlt => by rwa [hplace hk, hplace hm]
    by_cases hn : n ∈ names
    · rwa [insertName_of_mem hn]
    · rw [insertName_of_not_mem hn]
      refine List.pairwise_append.2 ⟨hnames, List.pairwise_singleton _ _, fun k hk m hm => ?_⟩
      -- a name that is new comes after everything that was given before
      have hlast : given.length ≤ (given ++ [n]).idxOf n := by
        rw [List.idxOf_append_of_notMem fun hgiven => hn ((h.mem_iff n).2 hgiven)]
        exact Nat.le_add_right _ _
      rw [List.mem_singleton.1 hm, hplace hk]
      exact Nat.lt_of_lt_of_le (List.idxOf_lt_length_of_mem ((h.mem_iff k).1 hk)) hlast

/-- Names that are added one after the other are listed in the order in which they first come. -/
theorem lists_foldl_insertName (given : List String) :
    Lists (given.foldl Tags.insertName []) given := by
  induction given using List.reverseRecOn with
  | nil => exact ⟨fun _ => Iff.rfl, List.nodup_nil, List.Pairwise.nil⟩
  | append_singleton given n ih =>
    rw [List.foldl_append]
    exact ih.insertName n

end Tags

/-! ## Bindings by their names -/

namespace Bindings

theorem names_insert (b : Bindings α) (n : String) (x : α) :
    (b.insert n x).names = Tags.insertName b.names n := by
  obtain ⟨es⟩ := b
  show (insertEntry n x es).map Prod.fst = Tags.insertName (es.map Prod.fst) n
  induction es with
  | nil => rfl
  | cons e es ih =>
    obtain ⟨m, y⟩ := e
    have hstep : insertEntry n x ((m, y) :: es) =
        if m = n then (m, x) :: es else (m, y) :: insertEntry n x es := rfl
    rw [hstep]
    by_cases hm : m = n
    · rw [if_pos hm]
      exact (Tags.insertName_of_mem (List.mem_cons.2 (Or.inl hm.symm))).symm
    · rw [if_neg hm, List.map_cons, ih, List.map_cons]
      by_cases hn : n ∈ es.map Prod.fst
      · rw [Tags.insertName_of_mem hn, Tags.insertName_of_mem (List.mem_cons_of_mem m hn)]
      · rw [Tags.insertName_of_not_mem hn, Tags.insertName_of_not_mem
          (List.not_mem_cons_of_ne_of_not_mem (Ne.symm hm) hn), List.cons_append]

theorem names_overlay (b c : Bindings α) :
    (b.overlay c).names = c.names.foldl Tags.insertName b.names := by
  obtain ⟨es⟩ := c
  induction es generalizing b with
  | nil => rfl
  | cons e es ih =>
    have hstep : b.overlay ⟨e :: es⟩ = (b.insert e.1 e.2).overlay ⟨es⟩ := rfl
    rw [hstep, ih, names_insert]
    rfl

/-- If each name has one entry, the entries are what the names are bound to. -/
theorem mem_entries_iff {b : Bindings α} (h : b.names.Nodup) {k : String} {x : α} :
    (k, x) ∈ b.entries ↔ b.get? k = some x := by
  obtain ⟨es⟩ := b
  induction es with
  | nil => exact iff_of_false List.not_mem_nil (Option.some_ne_none x).symm
  | cons e es ih =>
    obtain ⟨n, y⟩ := e
    obtain ⟨hn, hes⟩ := List.nodup_cons.1 h
    have hrest : (k, x) ∈ es ↔ get? ⟨es⟩ k = some x := ih hes
    rw [List.mem_cons, Prod.mk.injEq, get?_cons, hrest]
    by_cases hk : k = n
    · subst hk
      rw [get?_eq_none hn, if_pos rfl]
      simp [eq_comm]
    · simp [hk]

/-- The entries, read off the names and what they are bound to. -/
theorem map_entries {b : Bindings α} (h : b.names.Nodup) :
    b.entries.map (fun e => (e.1, some e.2)) = b.names.map fun k => (k, b.get? k) := by
  rw [names, List.map_map]
  refine List.map_congr_left fun e he => ?_
  exact Prod.ext rfl ((mem_entries_iff h).1 he).symm

/-- **Bindings are known by their names, in order, and by what these are bound to.** -/
theorem eq_of_get? {b c : Bindings α} (hnodup : b.names.Nodup) (hnames : b.names = c.names)
    (hget : ∀ k, b.get? k = c.get? k) : b = c := by
  have hinjective : Function.Injective fun e : String × α => (e.1, some e.2) := by
    intro e f hef
    obtain ⟨hname, hvalue⟩ := Prod.mk.inj hef
    exact Prod.ext hname (Option.some.inj hvalue)
  have hentries : b.entries.map (fun e => (e.1, some e.2)) =
      c.entries.map fun e => (e.1, some e.2) := by
    rw [map_entries hnodup, map_entries (hnames ▸ hnodup), hnames]
    exact List.map_congr_left fun k _ => by rw [hget]
  exact congrArg mk (List.map_injective_iff.2 hinjective hentries)

/-- Bindings that are written over nothing bind each name once. -/
theorem nodup_names_overlay_empty (c : Bindings α) : (empty.overlay c).names.Nodup := by
  rw [names_overlay]
  exact Tags.nodup_foldl_insertName List.nodup_nil

theorem get?_overlay_empty (c : Bindings α) (k : String) :
    (empty.overlay c).get? k = c.last? k := by
  rw [get?_overlay]
  exact Option.or_none

theorem last?_append (es fs : List (String × α)) (k : String) :
    last? ⟨es ++ fs⟩ k = (last? ⟨fs⟩ k).or (last? ⟨es⟩ k) := by
  show (es ++ fs).reverse.lookup k = _
  rw [List.reverse_append, List.lookup_append]
  rfl

/-- It makes no difference whether bindings are first written among themselves. -/
theorem overlay_overlay_empty {b : Bindings α} (h : b.names.Nodup) (c : Bindings α) :
    b.overlay (empty.overlay c) = b.overlay c := by
  have hnames : (b.overlay (empty.overlay c)).names = (b.overlay c).names := by
    rw [names_overlay, names_overlay, names_overlay, Tags.foldl_foldl_insertName]
    rfl
  refine eq_of_get? ?_ hnames fun k => ?_
  · exact names_overlay b _ ▸ Tags.nodup_foldl_insertName h
  · rw [get?_overlay, get?_overlay, last?_eq_get? (nodup_names_overlay_empty c),
      get?_overlay_empty]

end Bindings

end QueryPlan
