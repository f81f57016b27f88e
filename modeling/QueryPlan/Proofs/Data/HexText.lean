import Mathlib.Data.String.Basic
import QueryPlan.Proofs.Data.References

/-!
# The text of a reference

Every byte of a reference is shown by two digits to the base 16, the high one first, and the
characters of the digits are in the order of their numbers.  So the texts of two bytes compare as
the bytes do, and because all of them are equally long, the first byte that differs stands in both
texts at the same place.  A reference that is a beginning of another has a text that is a beginning
of the other's.

* `Ref.compare_hexByte_append` — one byte in front of any texts.
* `Ref.compare_hexText` — the texts of strings of bytes, whatever their lengths.
* `Ref.text_is_faithful` — **a reference's text shows its size, and nothing is lost in it, neither
  equality nor order.**
-/

namespace QueryPlan

/-! ## Digits -/

/-- The characters of digits are in the order of the digits. -/
theorem Hex.compare_char : ∀ m < 16, ∀ n < 16, compare (digit m) (digit n) = compare m n := by
  decide

/-- A character that digits are written with. -/
def Hex.IsLower (c : Char) : Prop := ('0' ≤ c ∧ c ≤ '9') ∨ ('a' ≤ c ∧ c ≤ 'f')

instance (c : Char) : Decidable (Hex.IsLower c) := inferInstanceAs (Decidable (_ ∨ _))

theorem Hex.isLower_digit : ∀ n < 16, IsLower (digit n) := by decide

/-! ## Order of texts -/

/-- The relation `<` on texts is the lexicographic one. -/
theorem compare_eq_lt_iff (s t : List Char) : compare s t = .lt ↔ s < t := by
  induction s generalizing t with
  | nil => cases t <;> simp
  | cons c s ih =>
    cases t with
    | nil => simp
    | cons d t =>
      rw [List.compare_cons_cons, List.cons_lt_cons_iff, Ordering.then_eq_lt, ih,
        Std.compare_eq_iff_eq, Std.LawfulLTCmp.eq_lt_iff_lt]

/-- Texts are compared character by character. -/
theorem compare_ofList (s t : List Char) :
    compare (String.ofList s) (String.ofList t) = compare s t := by
  have hlt : ∀ s t : List Char,
      compare (String.ofList s) (String.ofList t) = .lt ↔ compare s t = .lt := by
    intro s t
    rw [compare_eq_lt_iff, Std.LawfulLTCmp.eq_lt_iff_lt, String.lt_iff_toList_lt,
      String.toList_ofList, String.toList_ofList]
  cases h : compare s t with
  | lt => exact (hlt s t).2 h
  | eq =>
    rw [Std.compare_eq_iff_eq.1 h]
    exact Std.compare_self
  | gt =>
    rw [Std.OrientedCmp.gt_iff_lt] at h ⊢
    exact (hlt t s).2 h

namespace Ref

/-! ## The text of bytes -/

theorem high_digit_lt (b : UInt8) : b.toNat / 16 < 16 := by
  have hb : b.toNat < 256 := b.toNat_lt
  omega

theorem low_digit_lt (b : UInt8) : b.toNat % 16 < 16 := Nat.mod_lt _ (by decide)

/-- A byte is two digits, of which the high one decides first. -/
theorem compare_halves (b c : UInt8) :
    compare b c = (compare (b.toNat / 16) (c.toNat / 16)).then
      (compare (b.toNat % 16) (c.toNat % 16)) := by
  rw [← compare_digit (low_digit_lt b) (low_digit_lt c), Nat.div_add_mod, Nat.div_add_mod,
    compare_byte]

/-- The text of a byte decides before whatever follows it. -/
theorem compare_hexByte_append (b c : UInt8) (s t : List Char) :
    compare (hexByte b ++ s) (hexByte c ++ t) = (compare b c).then (compare s t) := by
  have htext : ∀ (b : UInt8) (s : List Char),
      hexByte b ++ s = Hex.digit (b.toNat / 16) :: Hex.digit (b.toNat % 16) :: s :=
    fun _ _ => rfl
  -- both bytes take two characters, so what follows is compared only behind equal bytes
  rw [htext, htext, List.compare_cons_cons, List.compare_cons_cons,
    Hex.compare_char _ (high_digit_lt b) _ (high_digit_lt c),
    Hex.compare_char _ (low_digit_lt b) _ (low_digit_lt c), compare_halves, Ordering.then_assoc]

/-- **The texts of bytes are in the order of the bytes.** -/
theorem compare_hexText (bs cs : List UInt8) :
    compare (bs.flatMap hexByte) (cs.flatMap hexByte) = compare bs cs := by
  induction bs generalizing cs with
  | nil =>
    cases cs with
    | nil => rfl
    | cons c cs => rfl
  | cons b bs ih =>
    cases cs with
    | nil => rfl
    | cons c cs =>
      rw [List.flatMap_cons, List.flatMap_cons, compare_hexByte_append, ih,
        List.compare_cons_cons]

theorem length_hexText (bs : List UInt8) : (bs.flatMap hexByte).length = 2 * bs.length := by
  induction bs with
  | nil => rfl
  | cons b bs ih =>
    have hbyte : (hexByte b).length = 2 := rfl
    rw [List.flatMap_cons, List.length_append, ih, hbyte, List.length_cons]
    omega

theorem isLower_hexText {bs : List UInt8} {c : Char} (h : c ∈ bs.flatMap hexByte) :
    Hex.IsLower c := by
  obtain ⟨b, -, hc⟩ := List.mem_flatMap.1 h
  rw [hexByte, List.mem_pair] at hc
  rcases hc with rfl | rfl
  · exact Hex.isLower_digit _ (high_digit_lt b)
  · exact Hex.isLower_digit _ (low_digit_lt b)

/-! ## The text of a reference -/

/-- References that compare as equal are the same. -/
instance : Std.LawfulEqOrd Ref where
  compare_self {a} := show compare a.bytes a.bytes = .eq from Std.compare_self
  eq_of_compare {a b} h := by
    have hbytes : a.bytes = b.bytes := Std.compare_eq_iff_eq.1 h
    cases a
    cases b
    exact congrArg mk hbytes

theorem compare_text (a b : Ref) : compare (toString a) (toString b) = compare a b :=
  (compare_ofList a.chars b.chars).trans (compare_hexText a.bytes b.bytes)

/-- **The text of a reference is faithful.**  It has two characters for each byte, all of them
lower-case hexadecimal digits.  Two references compare as their texts do, also where one is a
beginning of the other; so references with the same text are the same. -/
theorem text_is_faithful (a b : Ref) :
    (toString a).length = 2 * a.size ∧
    (∀ c ∈ (toString a).toList, Hex.IsLower c) ∧
    compare (toString a) (toString b) = compare a b ∧
    (toString a = toString b ↔ a = b) := by
  have htext : ∀ r : Ref, (toString r).toList = r.bytes.flatMap hexByte :=
    fun r => String.toList_ofList
  refine ⟨?_, fun c hc => ?_, compare_text a b, ?_⟩
  · rw [← String.length_toList, htext, length_hexText]
    rfl
  · rw [htext] at hc
    exact isLower_hexText hc
  · rw [← Std.compare_eq_iff_eq, compare_text, Std.compare_eq_iff_eq]

/-- A reference of two bytes. -/
def short : Ref := ⟨[0x0a, 0xff]⟩

/-- A reference that begins with `short`. -/
def extended : Ref := ⟨[0x0a, 0xff, 0x00]⟩

theorem text_is_faithful_extended :
    'f' ∈ (toString short).toList ∧ Hex.IsLower 'f' ∧ (toString short).length = 4 ∧
    compare (toString short) (toString extended) = .lt ∧ toString short ≠ toString extended := by
  have hmem : 'f' ∈ (toString short).toList := by decide
  obtain ⟨hlength, hlower, hcompare, hinj⟩ := text_is_faithful short extended
  refine ⟨hmem, hlower 'f' hmem, hlength, hcompare.trans (by decide), fun h => ?_⟩
  cases hinj.1 h

end Ref

end QueryPlan
