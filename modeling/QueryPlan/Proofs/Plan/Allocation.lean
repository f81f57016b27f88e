import Mathlib.Data.List.Induction
import QueryPlan.Plan.Identity

/-!
# Counters that several callers share

A call of a counter is one step: the number is read and moved on at once, so the calls of one
counter stand in an order, whoever makes them, and each caller's own calls stand in it in the
order in which the caller made them.  A list of calls is an interleaving of any number of callers
with any number of counters; the only thing assumed about it is nothing.

* `Uid.series` — identities with consecutive numbers, which wrap as a counter does.
* `Allocation.serveAll` — what a list of calls makes of the counters, and what it hands out.
* `Allocation.accounts_serveAll` — a counter hands out a series, as long as it has calls.
* `Allocation.serves_each_once` — **no identity is handed out twice**, and in which order they
  come.
-/

namespace QueryPlan

/-! ## Series of identities -/

namespace Uid

/-- The identity with a number, which is taken modulo the number of identities. -/
def ofNat (n : Nat) : Uid := ⟨UInt64.ofNat n⟩

theorem toNat_ofNat (n : Nat) : (ofNat n).id.toNat = n % UInt64.size := UInt64.toNat_ofNat'

theorem ofNat_toNat (u : Uid) : ofNat u.id.toNat = u := by
  simp [ofNat]

/-- The `n` identities with the numbers from `s` on. -/
def series (s n : Nat) : List Uid := (List.range n).map fun k => ofNat (s + k)

theorem length_series (s n : Nat) : (series s n).length = n := by
  simp [series]

theorem series_succ (s n : Nat) : series s (n + 1) = series s n ++ [ofNat (s + n)] := by
  simp [series, List.range_succ]

/-- **As many identities in a row as there are numbers are all different.** -/
theorem nodup_series {s n : Nat} (h : n ≤ UInt64.size) : (series s n).Nodup := by
  have hsize : UInt64.size = 18446744073709551616 := rfl
  refine List.pairwise_map.2 (List.Pairwise.imp_of_mem ?_ List.pairwise_lt_range)
  intro j k _ hk hlt heq
  have hk' := List.mem_range.1 hk
  have hid := congrArg (fun u : Uid => u.id.toNat) heq
  simp only [toNat_ofNat] at hid
  rw [hsize] at h hid
  omega

/-- Up to the point where the numbers wrap, identities in a row increase. -/
theorem pairwise_lt_series {s n : Nat} (h : s + n ≤ UInt64.size) :
    (series s n).Pairwise (· < ·) := by
  refine List.pairwise_map.2 (List.Pairwise.imp_of_mem ?_ List.pairwise_lt_range)
  intro j k _ hk hlt
  have hk' := List.mem_range.1 hk
  have hj : (s + j) % UInt64.size = s + j := Nat.mod_eq_of_lt (by omega)
  have hk : (s + k) % UInt64.size = s + k := Nat.mod_eq_of_lt (by omega)
  change (ofNat (s + j)).id < (ofNat (s + k)).id
  rw [UInt64.lt_iff_toNat_lt, toNat_ofNat, toNat_ofNat, hj, hk]
  omega

/-- The identity after a series is above it. -/
theorem lt_ofNat_of_mem_series {s n : Nat} (h : s + n < UInt64.size) {u : Uid}
    (hu : u ∈ series s n) : u < ofNat (s + n) := by
  have hlt := pairwise_lt_series (s := s) (n := n + 1) h
  rw [series_succ, List.pairwise_append] at hlt
  exact hlt.2.2 u hu _ (List.mem_singleton_self _)

theorem mem_series_iff {s n : Nat} (h : s + n ≤ UInt64.size) {u : Uid} :
    u ∈ series s n ↔ s ≤ u.id.toNat ∧ u.id.toNat < s + n := by
  constructor
  · intro hu
    obtain ⟨k, hk, rfl⟩ := List.mem_map.1 hu
    have hk' := List.mem_range.1 hk
    rw [toNat_ofNat, Nat.mod_eq_of_lt (by omega)]
    omega
  · rintro ⟨hlow, hhigh⟩
    refine List.mem_map.2 ⟨u.id.toNat - s, List.mem_range.2 (by omega), ?_⟩
    rw [Nat.add_sub_cancel' hlow, ofNat_toNat]

end Uid

/-! ## Calls -/

/-- A call of a counter. -/
structure UidCall (ι γ : Type) where
  /-- Who asks. -/
  caller : ι
  /-- Which counter. -/
  counter : γ

/-- Counters that callers share, and what they have handed out. -/
structure Allocation (ι γ : Type) where
  /-- The counters. -/
  counters : γ → UidCounter
  /-- The calls so far, in order, each with the identity that it was given. -/
  handed : List (UidCall ι γ × Uid)

namespace Allocation

variable {ι γ : Type} [DecidableEq γ]

/-- Counters that have not been called yet. -/
def new (counters : γ → UidCounter) : Allocation ι γ := ⟨counters, []⟩

/-- What a call makes of the counters. -/
def serve (a : Allocation ι γ) (c : UidCall ι γ) : Allocation ι γ where
  counters g := if g = c.counter then (a.counters g).next.2 else a.counters g
  handed := a.handed ++ [(c, (a.counters c.counter).next.1)]

/-- What calls make of the counters. -/
def serveAll (a : Allocation ι γ) (calls : List (UidCall ι γ)) : Allocation ι γ :=
  calls.foldl serve a

/-- The identities that a counter has handed out, in order. -/
def uidsOf (a : Allocation ι γ) (g : γ) : List Uid :=
  (a.handed.filter (·.1.counter = g)).map Prod.snd

/-- The identities that a counter has handed out to a caller, in order. -/
def uidsFor [DecidableEq ι] (a : Allocation ι γ) (g : γ) (i : ι) : List Uid :=
  (a.handed.filter fun h => h.1.counter = g ∧ h.1.caller = i).map Prod.snd

/-- The number of calls of a counter. -/
def callsOf (g : γ) (calls : List (UidCall ι γ)) : Nat := calls.countP (·.counter = g)

/-! ### One call -/

/-- What a list of calls leaves: every call was answered, a counter has moved on by the number of
its calls and has handed out a series of that length. -/
structure Accounts (start : γ → UidCounter) (calls : List (UidCall ι γ)) (a : Allocation ι γ) :
    Prop where
  /-- The answered calls are those that were made, in their order. -/
  calls_eq : a.handed.map Prod.fst = calls
  /-- Where a counter stands. -/
  current_eq : ∀ g, (a.counters g).current =
    UInt64.ofNat ((start g).current.toNat + callsOf g calls)
  /-- What a counter has handed out. -/
  uids_eq : ∀ g, a.uidsOf g = Uid.series (start g).current.toNat (callsOf g calls)

theorem accounts_new (start : γ → UidCounter) : Accounts start [] (new start : Allocation ι γ) where
  calls_eq := rfl
  current_eq g := by simp [new, callsOf]
  uids_eq g := rfl

theorem callsOf_append (g : γ) (calls : List (UidCall ι γ)) (c : UidCall ι γ) :
    callsOf g (calls ++ [c]) = if c.counter = g then callsOf g calls + 1 else callsOf g calls := by
  by_cases hc : c.counter = g <;> simp [callsOf, hc]

theorem uidsOf_serve (a : Allocation ι γ) (c : UidCall ι γ) (g : γ) :
    (a.serve c).uidsOf g =
      if c.counter = g then a.uidsOf g ++ [⟨(a.counters g).current⟩] else a.uidsOf g := by
  by_cases hc : c.counter = g
  · subst hc
    simp [uidsOf, serve, UidCounter.next]
  · simp [uidsOf, serve, hc]

theorem accounts_serve {start : γ → UidCounter} {calls : List (UidCall ι γ)}
    {a : Allocation ι γ} (h : Accounts start calls a) (c : UidCall ι γ) :
    Accounts start (calls ++ [c]) (a.serve c) where
  calls_eq := by simp [serve, h.calls_eq]
  current_eq g := by
    rw [callsOf_append]
    by_cases hc : c.counter = g
    · subst hc
      simp [serve, UidCounter.next, h.current_eq, UInt64.ofNat_add, UInt64.add_assoc]
    · simp [serve, h.current_eq, hc, Ne.symm hc]
  uids_eq g := by
    rw [callsOf_append, uidsOf_serve]
    by_cases hc : c.counter = g
    · rw [if_pos hc, if_pos hc, Uid.series_succ, h.uids_eq, h.current_eq]
      rfl
    · rw [if_neg hc, if_neg hc, h.uids_eq]

/-! ### All calls -/

theorem serveAll_append (a : Allocation ι γ) (calls calls' : List (UidCall ι γ)) :
    a.serveAll (calls ++ calls') = (a.serveAll calls).serveAll calls' :=
  List.foldl_append

theorem accounts_serveAll (start : γ → UidCounter) (calls : List (UidCall ι γ)) :
    Accounts start calls ((new start).serveAll calls) := by
  induction calls using List.reverseRecOn with
  | nil => exact accounts_new start
  | append_singleton calls c ih =>
    rw [serveAll_append]
    exact accounts_serve ih c

/-- What was handed out stays so. -/
theorem handed_prefix_serveAll (a : Allocation ι γ) (calls : List (UidCall ι γ)) :
    a.handed <+: (a.serveAll calls).handed := by
  induction calls generalizing a with
  | nil => exact List.prefix_refl _
  | cons c calls ih => exact List.IsPrefix.trans (List.prefix_append _ _) (ih (a.serve c))

/-- **The call that comes after `before` is given the number that its counter started with, more
by the calls of that counter in `before`**, and so is everything that is asked later. -/
theorem handed_serveAll (start : γ → UidCounter) (before after : List (UidCall ι γ))
    (c : UidCall ι γ) :
    ((new start).serveAll (before ++ c :: after)).handed[before.length]? =
      some (c, Uid.ofNat ((start c.counter).current.toNat + callsOf c.counter before)) := by
  have hbefore := accounts_serveAll start before
  have hlength : ((new start).serveAll before).handed.length = before.length := by
    rw [← List.length_map (f := Prod.fst), hbefore.calls_eq]
  have hserve : ((new start).serveAll (before ++ [c])).handed =
      ((new start).serveAll before).handed ++
        [(c, Uid.ofNat ((start c.counter).current.toNat + callsOf c.counter before))] := by
    rw [serveAll_append]
    change _ ++ [(c, (⟨(((new start).serveAll before).counters c.counter).current⟩ : Uid))] = _
    rw [hbefore.current_eq]
    rfl
  obtain ⟨more, hmore⟩ :=
    handed_prefix_serveAll ((new start).serveAll (before ++ [c])) after
  rw [List.append_cons, serveAll_append, ← hmore, hserve, List.append_assoc,
    List.getElem?_append_right (by omega), hlength]
  simp

/-- A counter is in the same place, and has handed out the same, as if it had been called
alone. -/
theorem serveAll_alone (start : γ → UidCounter) (calls : List (UidCall ι γ)) (g : γ) :
    ((new start).serveAll calls).counters g =
        ((new start).serveAll (calls.filter (·.counter = g))).counters g ∧
      ((new start).serveAll calls).uidsOf g =
        ((new start).serveAll (calls.filter (·.counter = g))).uidsOf g := by
  have hcalls : callsOf g (calls.filter (·.counter = g)) = callsOf g calls := by
    simp [callsOf, List.countP_filter]
  have hall := accounts_serveAll start calls
  have halone := accounts_serveAll start (calls.filter (·.counter = g))
  constructor
  · have hcurrent := hall.current_eq g
    rw [← hcalls, ← halone.current_eq g] at hcurrent
    cases h : ((new start).serveAll calls).counters g
    cases h' : ((new start).serveAll (calls.filter (·.counter = g))).counters g
    simp_all
  · rw [hall.uids_eq, halone.uids_eq, hcalls]

/-- A caller's identities stand in the order in which the counter handed them out. -/
theorem uidsFor_sublist_uidsOf [DecidableEq ι] (a : Allocation ι γ) (g : γ) (i : ι) :
    (a.uidsFor g i).Sublist (a.uidsOf g) := by
  refine List.Sublist.map _ ?_
  have hfilter : a.handed.filter (fun h => h.1.counter = g ∧ h.1.caller = i) =
      (a.handed.filter (·.1.counter = g)).filter (·.1.caller = i) := by
    simp [List.filter_filter, and_comm]
  rw [hfilter]
  exact List.filter_sublist

/-! ## What a counter hands out -/

/-- **No identity is handed out twice, whoever asks.**  In any interleaving of calls of any
counters, the call of a counter that has been called `k` times before is given the number `k`
behind the one the counter started with, modulo `2 ^ 64`, and the counter moves on by one.  So as
many calls as there are numbers are given different identities; up to the point where the numbers
wrap, the identities increase, those of each caller and all together, and are those from the
first number on; and a counter does not notice the calls of another. -/
theorem serves_each_once [DecidableEq ι] (start : γ → UidCounter) (calls : List (UidCall ι γ))
    (g : γ) :
    let s := (start g).current.toNat
    let n := callsOf g calls
    let a := (new start).serveAll calls
    (∀ before c after, calls = before ++ c :: after → c.counter = g →
      ∃ u, a.handed[before.length]? = some (c, u) ∧
        u.id.toNat = (s + callsOf g before) % UInt64.size ∧
        (((new start).serveAll (before ++ [c])).counters g).current.toNat =
          (s + callsOf g before + 1) % UInt64.size) ∧
    (n ≤ UInt64.size → (a.uidsOf g).Nodup) ∧
    (s + n ≤ UInt64.size →
      (a.uidsOf g).Pairwise (· < ·) ∧
      (∀ i, (a.uidsFor g i).Pairwise (· < ·)) ∧
      ∀ u, u ∈ a.uidsOf g ↔ s ≤ u.id.toNat ∧ u.id.toNat < s + n) ∧
    (a.counters g = ((new start).serveAll (calls.filter (·.counter = g))).counters g ∧
      a.uidsOf g = ((new start).serveAll (calls.filter (·.counter = g))).uidsOf g) := by
  intro s n a
  have huids : a.uidsOf g = Uid.series s n := (accounts_serveAll start calls).uids_eq g
  refine ⟨?_, fun hn => ?_, fun hs => ?_, serveAll_alone start calls g⟩
  · rintro before c after rfl rfl
    refine ⟨_, handed_serveAll start before after c, Uid.toNat_ofNat _, ?_⟩
    rw [(accounts_serveAll start (before ++ [c])).current_eq, callsOf_append, if_pos rfl]
    exact Uid.toNat_ofNat _
  · rw [huids]
    exact Uid.nodup_series hn
  · have hlt : (a.uidsOf g).Pairwise (· < ·) := by
      rw [huids]
      exact Uid.pairwise_lt_series hs
    refine ⟨hlt, fun i => hlt.sublist (uidsFor_sublist_uidsOf a g i), fun u => ?_⟩
    rw [huids]
    exact Uid.mem_series_iff hs

/-- Two callers and two counters, one of which is called until its numbers run out. -/
def lastCalls : List (UidCall Bool Bool) :=
  [⟨true, true⟩, ⟨false, true⟩, ⟨true, false⟩, ⟨true, true⟩]

/-- The counters of these calls. -/
def lastCounters (g : Bool) : UidCounter := .startingAt (if g then 18446744073709551613 else 5)

theorem serves_each_once_lastCalls :
    let a := (new lastCounters).serveAll lastCalls
    (lastCounters true).current.toNat + callsOf true lastCalls = UInt64.size ∧
    (∃ u, a.handed[3]? = some (⟨true, true⟩, u) ∧ u.id.toNat = UInt64.size - 1) ∧
    (a.uidsOf true).Nodup ∧ (a.uidsFor true true).Pairwise (· < ·) := by
  intro a
  have hsum : (lastCounters true).current.toNat + callsOf true lastCalls = UInt64.size := by decide
  obtain ⟨hcall, hnodup, hlt, -⟩ := serves_each_once lastCounters lastCalls true
  obtain ⟨u, hu, hid, -⟩ :=
    hcall [⟨true, true⟩, ⟨false, true⟩, ⟨true, false⟩] ⟨true, true⟩ [] rfl rfl
  exact ⟨hsum, ⟨u, hu, hid⟩, hnodup (by decide), (hlt (by decide)).2.1 true⟩

end Allocation

end QueryPlan
