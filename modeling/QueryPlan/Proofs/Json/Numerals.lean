import QueryPlan.Number.Numeral

/-!
# Written numbers read back

A numeral has no closing sign, so what is read back depends on what follows: a digit, a point or
the letter of an exponent would be taken for a part of it.  In front of any other text a numeral
that keeps the rules of the grammar is read back as it was, whatever its digits.

* `Numeral.WellFormed` — the rules: a digit in front of the point and behind the letter of an
  exponent, and no leading zero.
* `Numeral.Ends` — the texts that no numeral goes on into.
* `Numeral.read?_chars_append` — a numeral in front of such a text reads back.
* `Numeral.toInt?_ofInt` — the numeral of an integer stands for that integer.
-/

namespace QueryPlan

/-! ## Digits -/

theorem Digit.toChar_ne_minus : ∀ d : Digit, d.toChar ≠ '-' := by decide

theorem Decimal.digits_ne_nil (n : Nat) : Decimal.digits n ≠ [] := by
  rw [Decimal.digits]
  split <;> simp

/-- Only zero is written with a leading zero. -/
theorem Decimal.tail_digits_eq_nil {n : Nat} {d : Digit} {ds : List Digit}
    (h : Decimal.digits n = d :: ds) (hd : d.val = 0) : ds = [] := by
  rw [Decimal.digits] at h
  split at h
  · exact (List.cons.inj h).2.symm
  · rename_i hn
    -- the first digit is that of the tenth part, which would be a zero alone
    obtain ⟨d', ds', h'⟩ := List.exists_cons_of_ne_nil (Decimal.digits_ne_nil (n / 10))
    rw [h', List.cons_append] at h
    obtain ⟨rfl, -⟩ := List.cons.inj h
    have hds' : ds' = [] := Decimal.tail_digits_eq_nil h' hd
    have hvalue := Decimal.value_digits (n / 10)
    rw [h', hds'] at hvalue
    simp only [Decimal.value, List.foldl_cons, List.foldl_nil] at hvalue
    omega

namespace Numeral

/-! ## Where a numeral ends -/

/-- A text that no numeral in front of it goes on into. -/
def Ends : List Char → Prop
  | [] => True
  | c :: _ => Digit.ofChar? c = none ∧ c ≠ '.' ∧ c ≠ 'e' ∧ c ≠ 'E'

theorem takeDigits_of_ends {rest : List Char} (h : Ends rest) : takeDigits rest = ([], rest) := by
  cases rest with
  | nil => rfl
  | cons c cs => simp [takeDigits, h.1]

theorem readFraction?_of_ends {rest : List Char} (h : Ends rest) :
    readFraction? rest = some ([], rest) := by
  cases rest with
  | nil => rfl
  | cons c cs =>
    obtain ⟨-, hpoint, -, -⟩ := h
    unfold readFraction?
    split
    · simp_all
    · rfl

theorem readExponent?_of_ends {rest : List Char} (h : Ends rest) :
    readExponent? rest = some (none, rest) := by
  cases rest with
  | nil => rfl
  | cons c cs =>
    obtain ⟨-, -, he, hE⟩ := h
    unfold readExponent?
    split
    · simp_all
    · simp_all
    · rfl

/-! ## The parts of a numeral -/

theorem takeDigits_chars_append (ds : List Digit) {rest : List Char}
    (h : takeDigits rest = ([], rest)) : takeDigits (Decimal.chars ds ++ rest) = (ds, rest) := by
  induction ds with
  | nil => exact h
  | cons d ds ih =>
    have hcons : Decimal.chars (d :: ds) ++ rest = d.toChar :: (Decimal.chars ds ++ rest) := rfl
    rw [hcons, takeDigits, Digit.ofChar?_toChar, ih]

theorem readDigits?_chars_append {ds : List Digit} (hds : ds ≠ []) {rest : List Char}
    (h : takeDigits rest = ([], rest)) :
    readDigits? (Decimal.chars ds ++ rest) = some (ds, rest) := by
  cases ds with
  | nil => exact absurd rfl hds
  | cons d ds => rw [readDigits?, takeDigits_chars_append _ h]

theorem readWhole?_chars_append {ds : List Digit} (hds : ds ≠ [])
    (hzero : ∀ d ds', ds = d :: ds' → d.val = 0 → ds' = []) {rest : List Char}
    (h : takeDigits rest = ([], rest)) :
    readWhole? (Decimal.chars ds ++ rest) = some (ds, rest) := by
  cases ds with
  | nil => exact absurd rfl hds
  | cons d ds =>
    rw [readWhole?, takeDigits_chars_append _ h]
    exact if_neg fun ⟨hd, hne⟩ => hne (hzero d ds rfl hd)

theorem readSign_append (negative : Bool) {ds : List Digit} (hds : ds ≠ []) (rest : List Char) :
    readSign (signChars negative ++ (Decimal.chars ds ++ rest)) =
      (negative, Decimal.chars ds ++ rest) := by
  cases negative with
  | true => rfl
  | false =>
    cases ds with
    | nil => exact absurd rfl hds
    | cons d ds =>
      have hd := d.toChar_ne_minus
      have hcons : signChars false ++ (Decimal.chars (d :: ds) ++ rest) =
          d.toChar :: (Decimal.chars ds ++ rest) := rfl
      rw [hcons]
      unfold readSign
      split
      · simp_all
      · rfl

/-! ## Numerals -/

/-- The rules of the grammar. -/
structure WellFormed (n : Numeral) : Prop where
  /-- There is a digit in front of the point. -/
  whole_ne_nil : n.whole ≠ []
  /-- A zero in front of the point stands alone there. -/
  zero_alone : ∀ d ds, n.whole = d :: ds → d.val = 0 → ds = []
  /-- A power of ten has a digit. -/
  exponent_ne_nil : ∀ e, n.exponent = some e → e.digits ≠ []

theorem wellFormed_ofInt (i : Int) : (ofInt i).WellFormed where
  whole_ne_nil := Decimal.digits_ne_nil _
  zero_alone _ _ h hd := Decimal.tail_digits_eq_nil h hd
  exponent_ne_nil e h := by cases h

theorem readExponent?_append {e : Option Exponent} (he : ∀ x, e = some x → x.digits ≠ [])
    {rest : List Char} (h : Ends rest) :
    readExponent? (exponentChars e ++ rest) = some (e, rest) := by
  cases e with
  | none => exact readExponent?_of_ends h
  | some x =>
    obtain ⟨negative, ds⟩ := x
    have hds := readDigits?_chars_append (he _ rfl) (takeDigits_of_ends h)
    cases negative <;>
      simp [exponentChars, readExponent?, readPower?, hds]

/-- What stands behind the digits of a fraction is no digit. -/
theorem takeDigits_exponentChars {e : Option Exponent} {rest : List Char} (h : Ends rest) :
    takeDigits (exponentChars e ++ rest) = ([], exponentChars e ++ rest) := by
  cases e with
  | none => exact takeDigits_of_ends h
  | some x => rfl

theorem readFraction?_append {ds : List Digit} {e : Option Exponent} {rest : List Char}
    (h : Ends rest) :
    readFraction? (fractionChars ds ++ (exponentChars e ++ rest)) =
      some (ds, exponentChars e ++ rest) := by
  by_cases hds : ds = []
  · subst hds
    cases e with
    | none => exact readFraction?_of_ends h
    | some x => rfl
  · rw [fractionChars, if_neg hds]
    exact readDigits?_chars_append hds (takeDigits_exponentChars h)

/-- What stands behind the digits in front of the point is no digit. -/
theorem takeDigits_fractionChars (ds : List Digit) (e : Option Exponent) {rest : List Char}
    (h : Ends rest) :
    takeDigits (fractionChars ds ++ (exponentChars e ++ rest)) =
      ([], fractionChars ds ++ (exponentChars e ++ rest)) := by
  by_cases hds : ds = []
  · subst hds
    exact takeDigits_exponentChars h
  · rw [fractionChars, if_neg hds]
    rfl

/-- **A numeral reads back**, in front of any text that it does not go on into. -/
theorem read?_chars_append {n : Numeral} (hn : n.WellFormed) {rest : List Char} (h : Ends rest) :
    read? (n.chars ++ rest) = some (n, rest) := by
  have hchars : n.chars ++ rest = signChars n.negative ++ (Decimal.chars n.whole ++
      (fractionChars n.fraction ++ (exponentChars n.exponent ++ rest))) := by
    simp only [chars, List.append_assoc]
  have hwhole := readWhole?_chars_append hn.whole_ne_nil hn.zero_alone
    (takeDigits_fractionChars n.fraction n.exponent h)
  rw [hchars, read?, readSign_append _ hn.whole_ne_nil]
  simp [hwhole, readFraction?_append h, readExponent?_append hn.exponent_ne_nil h]

/-! ## Integers -/

/-- **The numeral of an integer stands for it.** -/
theorem toInt?_ofInt (i : Int) : (ofInt i).toInt? = some i := by
  have hvalue : Decimal.value (ofInt i).whole = i.natAbs := Decimal.value_digits _
  have hsign : (ofInt i).negative = decide (i < 0) := rfl
  rw [toInt?, hvalue, hsign, if_neg (by simp [ofInt])]
  dsimp only
  by_cases hi : i < 0
  · have hne : i.natAbs ≠ 0 := by omega
    have hneg : -(i.natAbs : Int) = i := by omega
    rw [if_pos (decide_eq_true hi), if_neg hne, hneg]
  · have hpos : (i.natAbs : Int) = i := by omega
    rw [decide_eq_false hi, if_neg Bool.false_ne_true, hpos]

end Numeral

end QueryPlan
