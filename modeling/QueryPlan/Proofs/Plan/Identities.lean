import QueryPlan.Plan.Assembly
import QueryPlan.Proofs.Plan.Allocation
import QueryPlan.Proofs.Tree.Unfolding

/-!
# Identities in plan trees

Plans are built node by node from one counter, in any order: the nodes of one tree between those
of another, a node long before the intersection that takes it for a child, or for nothing.  A
node is in one place only, so what has been built is what lies in the pool, each node once.

* `Plan.uids`, `Description.uids` — the identities of a tree, and those that are shown of it.
* `Description.Descending` — every node's identity is above those below the node.
* `Plan.Ordered` — whatever moves a tree's cursor has made, it shows its own identities and they
  descend.
* `Pool.Accounts` — what nodes leave in the pool: their identities, a series, in ordered trees.
* `AnySpec.FitsIn` — the trees that a node takes lie in the pool, so that it can be built.
* `AnySpec.uids_of_buildAll` — **no two nodes that were ever built have the same identity, and
  in every tree they descend**.
-/

namespace QueryPlan

/-! ## What is shown of a tree -/

namespace Description

mutual

/-- The identities of a description, each before those below it. -/
def uids : Description → List Uid
  | .node uid _ _ _ _ children => uid :: allUids children

/-- The identities of several descriptions, one description after the other. -/
def allUids : List Description → List Uid
  | [] => []
  | d :: ds => uids d ++ allUids ds

end

/-- Every node's identity is above all identities below the node. -/
inductive Descending : Description → Prop where
  /-- A node above others. -/
  | node {uid : Uid} {name : String} {domain : Domain} {size : Size} {error : Option String}
      {children : List Description} (below : ∀ v ∈ allUids children, v < uid)
      (each : ∀ d ∈ children, Descending d) :
      Descending (.node uid name domain size error children)

end Description

/-! ## Trees -/

namespace Plan

variable {κ α : Type} [Operator κ α]

mutual

/-- The identities of a tree, each before those below it. -/
def uids : Plan κ α → List Uid
  | .null uid | .error uid _ | .fixed uid _ => [uid]
  | .probe uid p os => uid :: (uids p ++ allUids os)
  | .custom n => [Operator.uid n]

/-- The identities of several trees, one tree after the other. -/
def allUids : List (Plan κ α) → List Uid
  | [] => []
  | p :: ps => uids p ++ allUids ps

end

theorem allUids_eq_flatMap (ps : List (Plan κ α)) : allUids ps = ps.flatMap uids := by
  induction ps with
  | nil => rfl
  | cons p ps ih =>
    rw [List.flatMap_cons, ← ih]
    rfl

variable [Item α]

/-- Wherever the cursor of the tree stands, it shows the identities of the tree, and they
descend. -/
structure Ordered (p : Plan κ α) : Prop where
  /-- A tree shows the identities of its nodes. -/
  uids_eq : ∀ c : Cursor p, (Operator.describe c).uids = p.uids
  /-- A node's identity is above those below it. -/
  descending : ∀ c : Cursor p, (Operator.describe c).Descending

/-- A tree is ordered if the identities that it shows below its root are always the same, are in
descending trees and are below the root's. -/
theorem ordered_of_children {p : Plan κ α} {uid : Uid} {vs : List Uid}
    (huids : p.uids = uid :: vs) (hbelow : ∀ v ∈ vs, v < uid)
    (hshown : ∀ c : Cursor p, ∃ ds,
      Operator.describe c = .node uid c.label c.domain c.size (c.err.map QueryError.message) ds ∧
        Description.allUids ds = vs ∧ ∀ d ∈ ds, d.Descending) :
    Ordered p where
  uids_eq c := by
    obtain ⟨ds, hc, rfl, -⟩ := hshown c
    rw [hc, huids]
    rfl
  descending c := by
    obtain ⟨ds, hc, rfl, hdesc⟩ := hshown c
    rw [hc]
    exact .node hbelow hdesc

theorem ordered_null (uid : Uid) : Ordered (.null uid : Plan κ α) :=
  ordered_of_children rfl (by simp) fun c => ⟨[], by cases c; rfl, rfl, by simp⟩

theorem ordered_error (uid : Uid) (err : QueryError) : Ordered (.error uid err : Plan κ α) :=
  ordered_of_children rfl (by simp) fun c => ⟨[], by cases c; rfl, rfl, by simp⟩

theorem ordered_fixed (uid : Uid) (leaf : RowSet α) : Ordered (.fixed uid leaf : Plan κ α) :=
  ordered_of_children rfl (by simp) fun c => ⟨[], by cases c; rfl, rfl, by simp⟩

/-- What an outline shows as part of a greater one is what it shows alone. -/
theorem describe_outline {p : Plan κ α} (c : Cursor p) :
    c.outline.describe = Operator.describe c := by
  cases c <;> rfl

/-- What outlines of several trees show is shown of each tree. -/
theorem describeAll_outlines_cons {p : Plan κ α} {ps : List (Plan κ α)} (c : Cursor p)
    (cs : Cursors ps) : Outline.describeAll (Cursor.outlines (.cons c cs)) =
      Operator.describe c :: Outline.describeAll (Cursor.outlines cs) := by
  rw [← describe_outline]
  rfl

/-- Several trees, if each is ordered. -/
theorem describeAll_outlines {ps : List (Plan κ α)} (hps : ∀ p ∈ ps, Ordered p)
    (cs : Cursors ps) :
    Description.allUids (Outline.describeAll (Cursor.outlines cs)) = allUids ps ∧
      ∀ d ∈ Outline.describeAll (Cursor.outlines cs), d.Descending := by
  induction ps with
  | nil =>
    cases cs
    exact ⟨rfl, List.forall_mem_nil _⟩
  | cons p ps ih =>
    obtain _ | ⟨c, cs⟩ := cs
    obtain ⟨hp, hps⟩ := List.forall_mem_cons.1 hps
    obtain ⟨huids, hdesc⟩ := ih hps cs
    rw [describeAll_outlines_cons]
    exact ⟨congrArg₂ (· ++ ·) (hp.uids_eq c) huids,
      List.forall_mem_cons.2 ⟨hp.descending c, hdesc⟩⟩

/-- **An intersection is ordered if its children are** and its identity is above all of
theirs. -/
theorem ordered_probe {uid : Uid} {p : Plan κ α} {os : List (Plan κ α)}
    (hkids : ∀ q ∈ p :: os, Ordered q) (hbelow : ∀ v ∈ allUids (p :: os), v < uid) :
    Ordered (.probe uid p os) := by
  refine ordered_of_children rfl hbelow fun c => ?_
  obtain _ | _ | _ | ⟨e, c, cs⟩ := c
  exact ⟨_, rfl, describeAll_outlines hkids (.cons c cs)⟩

end Plan

/-! ## Trees of either domain -/

namespace AnyPlan

/-- The identities of a tree, each before those below it. -/
def uids : AnyPlan → List Uid
  | .ref p => p.uids
  | .value p => p.uids

/-- The tree shows the description at some time. -/
def Shows : AnyPlan → Description → Prop
  | .ref p, d => ∃ c : Cursor p, Operator.describe c = d
  | .value p, d => ∃ c : Cursor p, Operator.describe c = d

/-- Whatever the tree shows, it shows the identities of the tree, and they descend. -/
def Ordered : AnyPlan → Prop
  | .ref p => p.Ordered
  | .value p => p.Ordered

theorem Ordered.of_shows {k : AnyPlan} (hk : k.Ordered) {d : Description} (hd : k.Shows d) :
    d.uids = k.uids ∧ d.Descending := by
  cases k <;> obtain ⟨c, rfl⟩ := hd
  · exact ⟨hk.uids_eq c, hk.descending c⟩
  · exact ⟨hk.uids_eq c, hk.descending c⟩

end AnyPlan

/-! ## The pool -/

namespace Pool

/-- The identities of all nodes in the pool, tree by tree. -/
def uids (pool : Pool) : List Uid := pool.flatMap (Option.elim · [] AnyPlan.uids)

theorem uids_append_some (pool : Pool) (k : AnyPlan) :
    uids (pool ++ [some k]) = pool.uids ++ k.uids := by
  simp [uids]

/-- Taking a tree takes its identities, and brings nothing. -/
theorem take?_eq_some {pool pool' : Pool} {i : Nat} {k : AnyPlan}
    (h : pool.take? i = some (k, pool')) :
    some k ∈ pool ∧ (∀ k', some k' ∈ pool' → some k' ∈ pool) ∧
      (k.uids ++ pool'.uids).Perm pool.uids := by
  unfold take? at h
  split at h
  case h_2 => simp at h
  case h_1 p hp =>
    cases h
    obtain ⟨hi, hget⟩ := List.getElem?_eq_some_iff.1 hp
    have hsplit : ∃ front back, pool = front ++ pool[i] :: back ∧ front.length = i ∧
        pool.set i none = front ++ none :: back := List.exists_of_set hi
    obtain ⟨front, back, hpool, -, hset⟩ := hsplit
    rw [hget] at hpool
    rw [hset, hpool]
    refine ⟨by simp, fun k' hk' => ?_, ?_⟩
    · simp only [List.mem_append, List.mem_cons] at hk' ⊢
      tauto
    · simp only [uids, List.flatMap_append, List.flatMap_cons, Option.elim_some,
        Option.elim_none, List.nil_append]
      exact List.perm_append_comm_assoc ..

/-- Taking trees takes their identities, and brings nothing. -/
theorem takeAll?_eq_some {pool pool' : Pool} {places : List Nat} {kids : List AnyPlan}
    (h : pool.takeAll? places = some (kids, pool')) :
    (∀ k ∈ kids, some k ∈ pool) ∧ (∀ k', some k' ∈ pool' → some k' ∈ pool) ∧
      (kids.flatMap AnyPlan.uids ++ pool'.uids).Perm pool.uids := by
  induction places generalizing pool pool' kids with
  | nil =>
    cases h
    simp
  | cons i places ih =>
    simp only [takeAll?, Option.bind_eq_bind, Option.bind_eq_some_iff, Prod.exists,
      Option.pure_def, Option.some.injEq] at h
    obtain ⟨k, pool₁, hfirst, ks, pool₂, hrest, heq⟩ := h
    cases heq
    obtain ⟨hk, hsub₁, hperm₁⟩ := take?_eq_some hfirst
    obtain ⟨hks, hsub₂, hperm₂⟩ := ih hrest
    refine ⟨List.forall_mem_cons.2 ⟨hk, fun k' hk' => hsub₁ k' (hks k' hk')⟩,
      fun k' hk' => hsub₁ k' (hsub₂ k' hk'), ?_⟩
    rw [List.flatMap_cons, List.append_assoc]
    exact (hperm₂.append_left _).trans hperm₁

/-- The places are different and hold trees of a domain. -/
def Offers {α : Type} (pool : Pool) (project : AnyPlan → Option (Plan (Script α) α))
    (places : List Nat) : Prop :=
  places.Nodup ∧ ∀ i ∈ places, ∃ k p, pool[i]? = some (some k) ∧ project k = some p

/-- What the pool offers can be taken. -/
theorem exists_takeAll? {α : Type} {project : AnyPlan → Option (Plan (Script α) α)} {pool : Pool}
    {places : List Nat} (h : pool.Offers project places) :
    ∃ kids pool' ps, pool.takeAll? places = some (kids, pool') ∧
      kids.mapM project = some ps ∧ ps.length = places.length := by
  induction places generalizing pool with
  | nil => exact ⟨[], pool, [], rfl, rfl, rfl⟩
  | cons i places ih =>
    obtain ⟨hnodup, hkids⟩ := h
    obtain ⟨hi, hnodup⟩ := List.nodup_cons.1 hnodup
    obtain ⟨⟨k, p, hk, hp⟩, hkids⟩ := List.forall_mem_cons.1 hkids
    have htake : pool.take? i = some (k, pool.set i none) := by simp [take?, hk]
    have hrest : Offers (pool.set i none) project places := by
      refine ⟨hnodup, fun j hj => ?_⟩
      have hne : i ≠ j := fun heq => hi (heq ▸ hj)
      rw [List.getElem?_set_ne hne]
      exact hkids j hj
    obtain ⟨kids, pool', ps, htaken, hps, hlength⟩ := ih hrest
    refine ⟨k :: kids, pool', p :: ps, ?_, ?_, ?_⟩
    · simp [takeAll?, htake, htaken]
    · simp [hp, hps]
    · simp [hlength]

/-- What `n` nodes leave that were built from a counter at `s`. -/
structure Accounts (s n : Nat) (pool : Pool) (counter : UidCounter) : Prop where
  /-- The counter has moved on by the nodes. -/
  current_eq : counter.current = UInt64.ofNat (s + n)
  /-- Every node is in the pool once. -/
  uids_perm : pool.uids.Perm (Uid.series s n)
  /-- The trees in the pool show descending identities. -/
  ordered : ∀ k, some k ∈ pool → k.Ordered

end Pool

/-! ## Building one node -/

/-- The plans of a domain are the trees that are projected to them. -/
structure AnyPlan.Embeds {α : Type} [Item α] (project : AnyPlan → Option (Plan (Script α) α))
    (embed : Plan (Script α) α → AnyPlan) : Prop where
  /-- A tree is projected to the plan that it is. -/
  eq_embed : ∀ k p, project k = some p → k = embed p
  /-- A plan keeps its identities. -/
  uids_embed : ∀ p, (embed p).uids = p.uids
  /-- A plan stays ordered. -/
  ordered_embed : ∀ p, (embed p).Ordered ↔ p.Ordered

namespace AnyPlan

theorem embeds_ref : Embeds ref? ref where
  eq_embed k p h := by cases k <;> simp_all [ref?]
  uids_embed _ := rfl
  ordered_embed _ := Iff.rfl

theorem embeds_value : Embeds value? value where
  eq_embed k p h := by cases k <;> simp_all [value?]
  uids_embed _ := rfl
  ordered_embed _ := Iff.rfl

variable {α : Type} [Item α] {project : AnyPlan → Option (Plan (Script α) α)}
  {embed : Plan (Script α) α → AnyPlan}

theorem Embeds.eq_map (he : Embeds project embed) {kids : List AnyPlan}
    {ps : List (Plan (Script α) α)} (h : kids.mapM project = some ps) : kids = ps.map embed := by
  induction kids generalizing ps with
  | nil =>
    cases h
    rfl
  | cons k kids ih =>
    simp only [List.mapM_cons, Option.bind_eq_bind, Option.bind_eq_some_iff, Option.pure_def,
      Option.some.injEq] at h
    obtain ⟨p, hp, qs, hqs, rfl⟩ := h
    rw [List.map_cons, ← he.eq_embed k p hp, ← ih hqs]

theorem Embeds.flatMap_uids (he : Embeds project embed) (ps : List (Plan (Script α) α)) :
    (ps.map embed).flatMap uids = Plan.allUids ps := by
  simp only [Plan.allUids_eq_flatMap, List.flatMap_map, he.uids_embed]

end AnyPlan

namespace NodeSpec

variable {α : Type}

/-- The specification is of one of the four kinds of node. -/
def IsBasic : NodeSpec α → Prop
  | .script _ _ => False
  | _ => True

variable [Item α] {project : AnyPlan → Option (Plan (Script α) α)}
  {embed : Plan (Script α) α → AnyPlan} {st st' : BuildState} {pool pool' : Pool}
  {p : Plan (Script α) α}

/-- **A node that is built takes one identity**, has it above those of the trees that it takes,
and loses none. -/
theorem build_eq_some (he : AnyPlan.Embeds project embed) {spec : NodeSpec α}
    (hspec : spec.IsBasic) (hpool : ∀ k, some k ∈ pool → k.Ordered)
    (hbelow : ∀ v ∈ pool.uids, v < st.uids.next.1)
    (hrun : (spec.build project pool).run st = (some (p, pool'), st')) :
    st'.uids = st.uids.next.2 ∧ p.Ordered ∧ (∀ k, some k ∈ pool' → some k ∈ pool) ∧
      (p.uids ++ pool'.uids).Perm (st.uids.next.1 :: pool.uids) := by
  cases spec with
  | null =>
    cases hrun
    exact ⟨rfl, Plan.ordered_null _, fun _ hk => hk, List.Perm.refl _⟩
  | error err =>
    cases hrun
    exact ⟨rfl, Plan.ordered_error _ _, fun _ hk => hk, List.Perm.refl _⟩
  | fixed leaf =>
    cases hrun
    exact ⟨rfl, Plan.ordered_fixed _ _, fun _ hk => hk, List.Perm.refl _⟩
  | probe primary others =>
    simp only [build] at hrun
    split at hrun
    case h_1 => cases hrun
    case h_2 kids rest htaken =>
      split at hrun
      case h_2 => cases hrun
      case h_1 q os hkids =>
        cases hrun
        obtain ⟨hmem, hsub, hperm⟩ := Pool.takeAll?_eq_some htaken
        have hkids := he.eq_map hkids
        subst hkids
        rw [he.flatMap_uids] at hperm
        refine ⟨rfl, Plan.ordered_probe (fun o ho => ?_) fun v hv => ?_, hsub, hperm.cons _⟩
        · exact (he.ordered_embed o).1 (hpool _ (hmem _ (List.mem_map_of_mem ho)))
        · exact hbelow v (hperm.subset (List.mem_append_left _ hv))
  | script node kids => exact hspec.elim

/-- The places of the trees that a node takes. -/
def kids : NodeSpec α → List Nat
  | .probe primary others => primary :: others
  | .script _ kids => kids
  | .null | .error _ | .fixed _ => []

/-- A node is built if its children are there. -/
theorem exists_build {spec : NodeSpec α} (hspec : spec.IsBasic)
    (hkids : pool.Offers project spec.kids) (st : BuildState) :
    ∃ built st', (spec.build project pool).run st = (some built, st') := by
  cases spec with
  | null | error err | fixed leaf => exact ⟨_, _, rfl⟩
  | probe primary others =>
    have hoffers : pool.Offers project (primary :: others) := hkids
    obtain ⟨kids, rest, ps, htaken, hps, hlength⟩ := Pool.exists_takeAll? hoffers
    obtain ⟨q, os, rfl⟩ := List.exists_cons_of_length_eq_add_one hlength
    refine ⟨(.probe st.uids.next.1 q os, rest), { st with uids := st.uids.next.2 }, ?_⟩
    simp only [build, htaken, hps]
    rfl
  | script node kids => exact hspec.elim

/-- A node that is built goes into the account. -/
theorem accounts_build (he : AnyPlan.Embeds project embed) {spec : NodeSpec α}
    (hspec : spec.IsBasic) {s n : Nat} (hroom : s + n < UInt64.size)
    (hpool : Pool.Accounts s n pool st.uids)
    (hrun : (spec.build project pool).run st = (some (p, pool'), st')) :
    Pool.Accounts s (n + 1) (pool' ++ [some (embed p)]) st'.uids := by
  have huid : st.uids.next.1 = Uid.ofNat (s + n) := congrArg Uid.mk hpool.current_eq
  have hbelow : ∀ v ∈ pool.uids, v < st.uids.next.1 := by
    intro v hv
    rw [huid]
    exact Uid.lt_ofNat_of_mem_series hroom (hpool.uids_perm.subset hv)
  obtain ⟨hcounter, hp, hsub, hperm⟩ := build_eq_some he hspec hpool.ordered hbelow hrun
  refine ⟨?_, ?_, fun k hk => ?_⟩
  · simp [hcounter, UidCounter.next, hpool.current_eq, UInt64.ofNat_add, UInt64.add_assoc]
  · calc Pool.uids (pool' ++ [some (embed p)])
        = pool'.uids ++ p.uids := by rw [Pool.uids_append_some, he.uids_embed]
      _ |>.Perm (p.uids ++ pool'.uids) := List.perm_append_comm
      _ |>.Perm (Uid.ofNat (s + n) :: pool.uids) := by rwa [← huid]
      _ |>.Perm (Uid.series s n ++ [Uid.ofNat (s + n)]) :=
        (hpool.uids_perm.cons _).trans (List.perm_append_singleton ..).symm
      _ = Uid.series s (n + 1) := (Uid.series_succ s n).symm
  · rcases List.mem_append.1 hk with hk | hk
    · exact hpool.ordered k (hsub k hk)
    · obtain rfl : k = embed p := by simpa using hk
      exact (he.ordered_embed p).2 hp

end NodeSpec

/-! ## Building nodes one after the other -/

theorem Build.map_of_some {β γ : Type} {x : Build (Option β)} {f : β → γ} {b : β}
    {st st' : BuildState} (h : x.run st = (some b, st')) :
    (do return (← x).map f : Build (Option γ)).run st = (some (f b), st') := by
  rw [StateT.run_bind, h]
  rfl

theorem Build.map_eq_some {β γ : Type} {x : Build (Option β)} {f : β → γ} {c : γ}
    {st st' : BuildState}
    (h : (do return (← x).map f : Build (Option γ)).run st = (some c, st')) :
    ∃ b, x.run st = (some b, st') ∧ f b = c := by
  have hrun : ((x.run st).1.map f, (x.run st).2) = (some c, st') := h
  obtain ⟨hr, rfl⟩ := Prod.mk.inj hrun
  obtain ⟨b, hb, hc⟩ := Option.map_eq_some_iff.1 hr
  exact ⟨b, Prod.ext hb rfl, hc⟩

namespace AnySpec

/-- The specification is of one of the four kinds of node. -/
def IsBasic : AnySpec → Prop
  | .ref spec => spec.IsBasic
  | .value spec => spec.IsBasic

/-- The trees that a node takes are there. -/
def FitsIn (pool : Pool) : AnySpec → Prop
  | .ref spec => pool.Offers AnyPlan.ref? spec.kids
  | .value spec => pool.Offers AnyPlan.value? spec.kids

variable {st st' st'' : BuildState} {pool pool' pool'' : Pool} {s n : Nat}

theorem exists_build {spec : AnySpec} (hspec : spec.IsBasic) (hfits : spec.FitsIn pool)
    (st : BuildState) : ∃ pool' st', (spec.build pool).run st = (some pool', st') := by
  cases spec with
  | ref spec =>
    obtain ⟨built, st', hbuilt⟩ := NodeSpec.exists_build hspec hfits st
    exact ⟨_, st', Build.map_of_some hbuilt⟩
  | value spec =>
    obtain ⟨built, st', hbuilt⟩ := NodeSpec.exists_build hspec hfits st
    exact ⟨_, st', Build.map_of_some hbuilt⟩

theorem buildAll_cons {spec : AnySpec} (specs : List AnySpec)
    (h : (spec.build pool).run st = (some pool', st')) :
    (buildAll pool (spec :: specs)).run st = (buildAll pool' specs).run st' := by
  change (spec.build pool >>= _).run st = _
  rw [StateT.run_bind, h]
  rfl

theorem buildAll_cons_eq_some {spec : AnySpec} {specs : List AnySpec}
    (h : (buildAll pool (spec :: specs)).run st = (some pool', st')) :
    ∃ pool₁ st₁, (spec.build pool).run st = (some pool₁, st₁) ∧
      (buildAll pool₁ specs).run st₁ = (some pool', st') := by
  change (spec.build pool >>= _).run st = _ at h
  rcases hbuilt : (spec.build pool).run st with ⟨_ | pool₁, st₁⟩ <;>
    rw [StateT.run_bind, hbuilt] at h
  · cases h
  · exact ⟨pool₁, st₁, rfl, h⟩

theorem buildAll_concat {specs : List AnySpec} {spec : AnySpec}
    (hspecs : (buildAll pool specs).run st = (some pool', st'))
    (hspec : (spec.build pool').run st' = (some pool'', st'')) :
    (buildAll pool (specs ++ [spec])).run st = (some pool'', st'') := by
  induction specs generalizing pool st with
  | nil =>
    cases hspecs
    exact buildAll_cons [] hspec
  | cons first specs ih =>
    obtain ⟨pool₁, st₁, hfirst, hrest⟩ := buildAll_cons_eq_some hspecs
    rw [List.cons_append, buildAll_cons _ hfirst]
    exact ih hrest

theorem accounts_build {spec : AnySpec} (hspec : spec.IsBasic) (hroom : s + n < UInt64.size)
    (hpool : Pool.Accounts s n pool st.uids)
    (hrun : (spec.build pool).run st = (some pool', st')) :
    Pool.Accounts s (n + 1) pool' st'.uids := by
  cases spec with
  | ref spec =>
    obtain ⟨built, hbuilt, rfl⟩ := Build.map_eq_some hrun
    exact NodeSpec.accounts_build AnyPlan.embeds_ref hspec hroom hpool hbuilt
  | value spec =>
    obtain ⟨built, hbuilt, rfl⟩ := Build.map_eq_some hrun
    exact NodeSpec.accounts_build AnyPlan.embeds_value hspec hroom hpool hbuilt

theorem accounts_buildAll {specs : List AnySpec} (hspecs : ∀ spec ∈ specs, spec.IsBasic)
    (hroom : s + n + specs.length ≤ UInt64.size) (hpool : Pool.Accounts s n pool st.uids)
    (hrun : (buildAll pool specs).run st = (some pool', st')) :
    Pool.Accounts s (n + specs.length) pool' st'.uids := by
  induction specs generalizing pool st n with
  | nil =>
    cases hrun
    exact hpool
  | cons spec specs ih =>
    obtain ⟨hspec, hspecs⟩ := List.forall_mem_cons.1 hspecs
    rw [List.length_cons] at hroom
    obtain ⟨pool₁, st₁, hbuilt, hrest⟩ := buildAll_cons_eq_some hrun
    have hnext := ih hspecs (by omega) (accounts_build hspec (by omega) hpool hbuilt) hrest
    rwa [List.length_cons, Nat.add_comm specs.length, ← Nat.add_assoc]

/-! ## Identities of what was built -/

/-- **Identities in plan trees are unique, and descend.**  Nodes of the four kinds that are built
in any order, of any number of trees, have identities that all differ, as long as the counter
does not wrap: each has one of the numbers from the counter's on.  And whatever a tree shows that
they make up, wherever its cursor stands, it shows its own identities, each above all below it.
A node can be built next if the trees that it takes are there. -/
theorem uids_of_buildAll (specs : List AnySpec) (hspecs : ∀ spec ∈ specs, spec.IsBasic)
    (st st' : BuildState) (pool : Pool)
    (hroom : st.uids.current.toNat + specs.length ≤ UInt64.size)
    (hrun : (buildAll [] specs).run st = (some pool, st')) :
    pool.uids.Perm (Uid.series st.uids.current.toNat specs.length) ∧
      pool.uids.length = specs.length ∧ pool.uids.Nodup ∧
      (∀ k, some k ∈ pool → ∀ d, k.Shows d → d.uids = k.uids ∧ d.Descending) ∧
      ∀ spec : AnySpec, spec.IsBasic → spec.FitsIn pool →
        ∃ pool' st'', (buildAll [] (specs ++ [spec])).run st = (some pool', st'') := by
  have hstart : Pool.Accounts st.uids.current.toNat 0 [] st.uids :=
    ⟨by simp, List.Perm.refl _, by simp⟩
  have hend := accounts_buildAll hspecs (by omega) hstart hrun
  rw [Nat.zero_add] at hend
  refine ⟨hend.uids_perm, ?_, ?_, fun k hk d hd => (hend.ordered k hk).of_shows hd,
    fun spec hspec hfits => ?_⟩
  · rw [hend.uids_perm.length_eq, Uid.length_series]
  · exact hend.uids_perm.nodup_iff.2 (Uid.nodup_series (by omega))
  · obtain ⟨pool', st'', hbuilt⟩ := exists_build hspec hfits st'
    exact ⟨pool', st'', buildAll_concat hrun hbuilt⟩

/-- The nodes of two trees in turns, one of them above another's intersection, and a node that
nothing uses. -/
def mixedOrder : List AnySpec :=
  [.ref (.fixed ⟨[], ⟨[], .empty⟩, none⟩), .value .null, .ref .null, .ref (.probe 0 [2]),
    .value (.error .cancelled), .ref (.error .cancelled), .value (.probe 4 []),
    .ref (.probe 5 [3])]

theorem uids_of_buildAll_mixedOrder :
    ∃ pool st', (buildAll [] mixedOrder).run ⟨.new, []⟩ = (some pool, st') ∧
      (∀ spec ∈ mixedOrder, spec.IsBasic) ∧ pool.uids.Nodup ∧ pool.uids.length = 8 ∧
      ∃ k, some k ∈ pool ∧ k.uids = [⟨7⟩, ⟨5⟩, ⟨3⟩, ⟨0⟩, ⟨2⟩] ∧
        ∀ d, k.Shows d → d.uids = k.uids ∧ d.Descending := by
  have hspecs : ∀ spec ∈ mixedOrder, spec.IsBasic := by
    simp [mixedOrder, IsBasic, NodeSpec.IsBasic]
  obtain ⟨-, hlength, hnodup, hshown, -⟩ :=
    uids_of_buildAll mixedOrder hspecs ⟨.new, []⟩ _ _ (by decide) rfl
  refine ⟨_, _, rfl, hspecs, hnodup, hlength, _, List.mem_of_getElem? (i := 7) rfl, rfl, ?_⟩
  exact hshown _ (List.mem_of_getElem? (i := 7) rfl)

end AnySpec

end QueryPlan
