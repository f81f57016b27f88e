import QueryPlan.Plan.Domain

/-!
# Equality of the things that nodes enumerate

Equality of references is that of their bytes.  Equality of values compares floats as
numbers, so a value that is not a number does not equal itself, and the two zeros are equal
without being the same.  What is left of an equivalence is that equality goes both ways and
goes on (`PartialEquivBEq`).
-/

namespace QueryPlan

namespace Double

theorem same_iff {x y : Double} : same x y = true ↔
    (x.isNaN = false ∧ y.isNaN = false) ∧ (x = y ∨ x.isZero = true ∧ y.isZero = true) := by
  have hbits : x.bits = y.bits ↔ x = y := by
    cases x
    cases y
    simp
  simp [same, hbits]

instance : PartialEquivBEq Double where
  symm {x y} h := by
    obtain ⟨⟨hx, hy⟩, h⟩ := same_iff.1 h
    exact same_iff.2 ⟨⟨hy, hx⟩, h.imp Eq.symm And.symm⟩
  trans {x y z} h h' := by
    obtain ⟨⟨hx, -⟩, h⟩ := same_iff.1 h
    obtain ⟨⟨-, hz⟩, h'⟩ := same_iff.1 h'
    refine same_iff.2 ⟨⟨hx, hz⟩, ?_⟩
    rcases h with rfl | hzero
    · exact h'
    · rcases h' with rfl | hzero'
      · exact Or.inr hzero
      · exact Or.inr ⟨hzero.1, hzero'.2⟩

end Double

namespace Value

theorem same_symm {a b : Value} (h : same a b = true) : same b a = true := by
  cases a <;> cases b <;>
    simp only [same, Bool.false_eq_true, Bool.and_eq_true, beq_iff_eq] at h ⊢
  case float.float => exact BEq.symm h
  case typed.typed => exact ⟨h.1.symm, h.2.symm⟩
  case lang.lang => exact ⟨h.1.symm, h.2.symm⟩
  all_goals exact h.symm

theorem same_trans {a b c : Value} (h : same a b = true) (h' : same b c = true) :
    same a c = true := by
  cases a <;> cases b <;>
    simp only [same, Bool.false_eq_true, Bool.and_eq_true, beq_iff_eq] at h
  case float.float =>
    -- equal floats need not be the same, so the third value has to be looked at
    cases c with
    | float z => exact BEq.trans h (show (_ == z) = true from h')
    | _ => cases h'
  case typed.typed =>
    obtain ⟨rfl, rfl⟩ := h
    exact h'
  case lang.lang =>
    obtain ⟨rfl, rfl⟩ := h
    exact h'
  all_goals
    subst h
    exact h'

instance : PartialEquivBEq Value where
  symm := same_symm
  trans := same_trans

end Value

end QueryPlan
