import Mathlib.Algebra.Ring.Nat
import Mathlib.Data.List.Induction
import Mathlib.Tactic.SplitIfs
import QueryPlan.Data.Ref

/-!
# References of numbered elements

The bytes of a reference are digits to the base 256, most significant first.  Among strings of
digits that are equally long the first difference decides, for the numbers as for the strings,
because all the digits behind it together weigh less than one step of it.  So eight bytes are as
good as a 64-bit id, and in the same order.

* `Ref.natOfBytes_bytesOfNat`, `Ref.bytesOfNat_natOfBytes` — digits and numbers, both ways.
* `Ref.compare_natOfBytes` — equally long strings of digits are in the order of their numbers.
* `Ref.ids_are_eight_byte_refs` — **ids are the references of eight bytes, in their order.**
-/

namespace QueryPlan

namespace Ref

/-! ## Numbers as bytes -/

theorem bytesOfNat_succ (n x : Nat) :
    bytesOfNat (n + 1) x = bytesOfNat n (x / 256) ++ [UInt8.ofNat x] := rfl

theorem length_bytesOfNat (n x : Nat) : (bytesOfNat n x).length = n := by
  induction n generalizing x with
  | zero => rfl
  | succ n ih => rw [bytesOfNat_succ, List.length_append, ih, List.length_singleton]

theorem natOfBytes_append (bs : List UInt8) (b : UInt8) :
    natOfBytes (bs ++ [b]) = 256 * natOfBytes bs + b.toNat :=
  List.foldl_append

/-- The bytes of a number hold what fits into them. -/
theorem natOfBytes_bytesOfNat (n x : Nat) : natOfBytes (bytesOfNat n x) = x % 256 ^ n := by
  induction n generalizing x with
  | zero => exact (Nat.mod_one x).symm
  | succ n ih =>
    have hlow : (UInt8.ofNat x).toNat = x % 256 := UInt8.toNat_ofNat'
    rw [bytesOfNat_succ, natOfBytes_append, ih, hlow, pow_succ', Nat.mod_mul, Nat.add_comm]

/-- No two strings of bytes of one length stand for the same number. -/
theorem bytesOfNat_natOfBytes (bs : List UInt8) : bytesOfNat bs.length (natOfBytes bs) = bs := by
  induction bs using List.reverseRecOn with
  | nil => rfl
  | append_singleton bs b ih =>
    have hb : b.toNat < 256 := b.toNat_lt
    have hhigh : (256 * natOfBytes bs + b.toNat) / 256 = natOfBytes bs := by omega
    have hlow : UInt8.ofNat (256 * natOfBytes bs + b.toNat) = b :=
      UInt8.toNat_inj.1 (by rw [UInt8.toNat_ofNat']; omega)
    rw [List.length_append, List.length_singleton, bytesOfNat_succ, natOfBytes_append, hhigh,
      hlow, ih]

theorem natOfBytes_lt (bs : List UInt8) : natOfBytes bs < 256 ^ bs.length := by
  have h := natOfBytes_bytesOfNat bs.length (natOfBytes bs)
  rw [bytesOfNat_natOfBytes] at h
  rw [h]
  exact Nat.mod_lt _ (Nat.pow_pos (by decide))

/-! ## Order -/

theorem compare_byte (b c : UInt8) : compare b c = compare b.toNat c.toNat := by
  simp only [compare, compareOfLessAndEq, UInt8.lt_iff_toNat_lt, UInt8.toNat_inj]

theorem compare_id (a b : UInt64) : compare a b = compare a.toNat b.toNat := by
  simp only [compare, compareOfLessAndEq, UInt64.lt_iff_toNat_lt, UInt64.toNat_inj]

/-- A digit behind two numbers decides only if the numbers are equal. -/
theorem compare_digit {base r s : Nat} (hr : r < base) (hs : s < base) (m n : Nat) :
    compare (base * m + r) (base * n + s) = (compare m n).then (compare r s) := by
  rcases Nat.lt_trichotomy m n with h | rfl | h
  · have hstep : base * m + base ≤ base * n := Nat.mul_le_mul_left base h
    rw [Nat.compare_eq_lt.2 h, Nat.compare_eq_lt.2 (by omega)]
    rfl
  · rw [Nat.compare_eq_eq.2 rfl]
    simp only [Ordering.eq_then, Nat.compare_eq_ite_lt, Nat.add_lt_add_iff_left]
  · have hstep : base * n + base ≤ base * m := Nat.mul_le_mul_left base h
    rw [Nat.compare_eq_gt.2 h, Nat.compare_eq_gt.2 (by omega)]
    rfl

/-- The digits that were read before decide before those that are still to be read. -/
theorem compare_foldl_digits {bs cs : List UInt8} (h : bs.length = cs.length) (m n : Nat) :
    compare (bs.foldl (fun n b => 256 * n + b.toNat) m)
        (cs.foldl (fun n b => 256 * n + b.toNat) n) =
      (compare m n).then (compare bs cs) := by
  induction bs generalizing cs m n with
  | nil =>
    rw [List.length_eq_zero_iff.1 h.symm]
    exact (Ordering.then_eq).symm
  | cons b bs ih =>
    cases cs with
    | nil => cases h
    | cons c cs =>
      rw [List.foldl_cons, List.foldl_cons, ih (Nat.succ.inj h),
        compare_digit b.toNat_lt c.toNat_lt, ← compare_byte, List.compare_cons_cons,
        Ordering.then_assoc]

/-- **Equally long strings of bytes are in the order of their numbers.** -/
theorem compare_natOfBytes {bs cs : List UInt8} (h : bs.length = cs.length) :
    compare (natOfBytes bs) (natOfBytes cs) = compare bs cs :=
  compare_foldl_digits h 0 0

/-! ## References of ids -/

theorem size_ofId (id : UInt64) : (ofId id).size = 8 := length_bytesOfNat 8 id.toNat

theorem natOfBytes_ofId (id : UInt64) : natOfBytes (ofId id).bytes = id.toNat := by
  rw [ofId, natOfBytes_bytesOfNat]
  exact Nat.mod_eq_of_lt id.toNat_lt

theorem toId_ofId (id : UInt64) : toId (ofId id) = .ok id := by
  rw [toId, if_pos (size_ofId id), natOfBytes_ofId, UInt64.ofNat_toNat]

theorem compare_ofId (a b : UInt64) : compare (ofId a) (ofId b) = compare a b := by
  have hbytes : compare (ofId a) (ofId b) = compare (ofId a).bytes (ofId b).bytes := rfl
  rw [hbytes, ← compare_natOfBytes ((size_ofId a).trans (size_ofId b).symm), natOfBytes_ofId,
    natOfBytes_ofId, ← compare_id]

/-- Every reference of eight bytes is that of the id in it. -/
theorem ofId_natOfBytes {r : Ref} (h : r.size = 8) :
    ofId (UInt64.ofNat (natOfBytes r.bytes)) = r := by
  obtain ⟨bs⟩ := r
  have hlength : bs.length = 8 := h
  have hlt : natOfBytes bs < 2 ^ 64 := by
    have := natOfBytes_lt bs
    rwa [hlength] at this
  have hnat : (UInt64.ofNat (natOfBytes bs)).toNat = natOfBytes bs := by
    rw [UInt64.toNat_ofNat', Nat.mod_eq_of_lt hlt]
  rw [ofId, hnat, ← hlength, bytesOfNat_natOfBytes]

theorem toId_eq_ok_iff {r : Ref} {id : UInt64} : toId r = .ok id ↔ r = ofId id := by
  constructor
  · intro h
    rw [toId] at h
    split_ifs at h with hsize
    rw [← Except.ok.inj h, ofId_natOfBytes hsize]
  · rintro rfl
    exact toId_ofId id

/-- **Ids are the references of eight bytes, in their order.**  Two ids compare as their
references do; the reference of an id decodes to it; a reference decodes to an id only if it is
that id's reference, which there is exactly if it has eight bytes; and with any other number of
bytes decoding fails, and says how many there are. -/
theorem ids_are_eight_byte_refs :
    (∀ a b : UInt64, compare (ofId a) (ofId b) = compare a b) ∧
    (∀ a : UInt64, toId (ofId a) = .ok a) ∧
    (∀ (r : Ref) (n : UInt64), toId r = .ok n ↔ r = ofId n) ∧
    (∀ r : Ref, (∃ n, r = ofId n) ↔ r.size = 8) ∧
    (∀ r : Ref, toId r = .error (.invalidRef ("expected 8 bytes, got " ++
      String.ofList (Decimal.ofNat r.size))) ↔ r.size ≠ 8) := by
  refine ⟨compare_ofId, toId_ofId, fun _ _ => toId_eq_ok_iff, fun r => ⟨?_, fun h => ?_⟩,
    fun r => ⟨fun h hsize => ?_, fun h => if_neg h⟩⟩
  · rintro ⟨n, rfl⟩
    exact size_ofId n
  · exact ⟨_, (ofId_natOfBytes h).symm⟩
  · rw [toId, if_pos hsize] at h
    cases h

end Ref

end QueryPlan
