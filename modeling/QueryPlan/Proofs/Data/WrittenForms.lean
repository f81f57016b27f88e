import QueryPlan.Proofs.Json.Codecs

/-!
# Written forms of values

Floats aside, a value is known by its written form.  The first sign of the text tells most kinds
apart.  The three kinds of literals all begin with a quoted part, and what tells them apart stands
behind its closing quote: nothing, a datatype or a language tag.  Where that quote is does not
depend on what follows, and so there is a reader for written forms.

* `Value.ofChars?` — the reader, and `Value.ofChars?_chars` — it gives back every value that is no
  float.
* `Value.written_form_identifies` — **values with the same written form are the same.**
-/

namespace QueryPlan

/-! ## Integers -/

/-- An integer is written like a number in JSON. -/
theorem Numeral.chars_ofInt (i : Int) : (ofInt i).chars = Decimal.ofInt i := by
  have hchars : (ofInt i).chars = signChars (decide (i < 0)) ++ Decimal.ofNat i.natAbs := by
    simp [chars, ofInt, fractionChars, exponentChars, Decimal.ofNat]
  rw [hchars, Decimal.ofInt]
  by_cases hi : i < 0
  · rw [if_pos hi, decide_eq_true hi]
    rfl
  · rw [if_neg hi, decide_eq_false hi]
    rfl

theorem Numeral.read?_decimal (i : Int) : read? (Decimal.ofInt i) = some (ofInt i, []) := by
  have hread : read? ((ofInt i).chars ++ []) = some (ofInt i, []) :=
    read?_chars_append (wellFormed_ofInt i) trivial
  rwa [chars_ofInt, List.append_nil] at hread

namespace Value

/-! ## The reader -/

/-- The text between two angle brackets that enclose all of it. -/
def unangled? : List Char → Option String
  | '<' :: cs => if cs.getLast? = some '>' then some (String.ofList cs.dropLast) else none
  | _ => none

theorem unangled?_angled (s : String) : unangled? (angled s) = some s := by
  simp [unangled?, angled]

/-- The literal with a text, by what stands behind the closing quote. -/
def literal? (s : List Char) : List Char → Option Value
  | [] => some (.string (String.ofList s))
  | '^' :: '^' :: cs => (unangled? cs).map (.typed (String.ofList s))
  | '@' :: tag => some (.lang (String.ofList s) (String.ofList tag))
  | _ => none

/-- The value, by the first sign of a text that is no number. -/
def ofSign? (cs : List Char) : Option Value :=
  match cs with
  | '"' :: _ => (Quoted.decode? cs).bind fun p => literal? p.1 p.2
  | '<' :: _ => (unangled? cs).map .iri
  | '_' :: ':' :: label => some (.blank (String.ofList label))
  | ['t', 'r', 'u', 'e'] => some (.bool true)
  | ['f', 'a', 'l', 's', 'e'] => some (.bool false)
  | _ => none

/-- The value that has this written form and is no float. -/
def ofChars? (cs : List Char) : Option Value :=
  match Numeral.read? cs with
  | some (n, []) => (Json.num n).asInt64?.map fun i => .int (Int64.ofInt i)
  | some (_, _ :: _) => none
  | none => ofSign? cs

/-! ## Written forms are read back -/

theorem ofChars?_decimal (i : Int64) : ofChars? (Decimal.ofInt i.toInt) = some (.int i) := by
  have hint : (Json.num (.ofInt i.toInt)).asInt64? = some i.toInt := Json.asInt64?_ofInt i
  rw [ofChars?, Numeral.read?_decimal]
  simp [hint]

/-- A literal is read back, if what stands behind its quoted part tells which it is. -/
theorem ofChars?_quoted {s rest : List Char} {v : Value} (h : literal? s rest = some v) :
    ofChars? (Quoted.encode s ++ rest) = some v := by
  have hdecode := Quoted.decode?_encode_append s rest
  have hsign : ofChars? (Quoted.encode s ++ rest) =
      (Quoted.decode? (Quoted.encode s ++ rest)).bind fun p => literal? p.1 p.2 := rfl
  rw [hsign, hdecode]
  exact h

/-- **The written form of a value that is no float is read back.** -/
theorem ofChars?_chars {v : Value} (hv : ∀ x, v ≠ .float x) : ofChars? v.chars = some v := by
  cases v with
  | string s =>
    have hread : ofChars? (Quoted.encode s.toList ++ []) = some (.string s) :=
      ofChars?_quoted (by simp [literal?])
    rwa [List.append_nil] at hread
  | iri s =>
    have hsign : ofChars? (angled s) = (unangled? (angled s)).map .iri := rfl
    exact hsign.trans (by rw [unangled?_angled]; rfl)
  | blank label =>
    have hsign : ofChars? ('_' :: ':' :: label.toList) =
        some (.blank (String.ofList label.toList)) := rfl
    exact hsign.trans (by rw [String.ofList_toList])
  | typed s datatype => exact ofChars?_quoted (by simp [literal?, unangled?_angled])
  | lang s tag => exact ofChars?_quoted (by simp [literal?])
  | int i => exact ofChars?_decimal i
  | float x => exact absurd rfl (hv x)
  | bool b => cases b <;> rfl

/-- **A written form identifies its value.**  Two values, neither of them a float, have the same
text exactly if they are the same.  And the quoted part of a literal shows its own end: one decoder
splits the quoted form of any text off from whatever follows it. -/
theorem written_form_identifies :
    (∀ v w : Value, (∀ x, v ≠ .float x) → (∀ x, w ≠ .float x) →
      (toString v = toString w ↔ v = w)) ∧
    ∀ s t : List Char, Quoted.decode? (Quoted.encode s ++ t) = some (s, t) := by
  refine ⟨fun v w hv hw => ⟨fun h => ?_, congrArg toString⟩, Quoted.decode?_encode_append⟩
  have hchars : v.chars = w.chars := String.ofList_injective h
  have hread := ofChars?_chars hv
  rw [hchars, ofChars?_chars hw] at hread
  exact (Option.some.inj hread).symm

/-- A string whose characters are those that stand between the outer signs of a typed string. -/
def lookalike : Value := .string "a\"^^<b"

theorem written_form_identifies_lookalike :
    (∀ x, lookalike ≠ .float x) ∧ (∀ x, typed "a" "b" ≠ .float x) ∧
    toString lookalike ≠ toString (typed "a" "b") ∧
    Quoted.decode? (Quoted.encode ['\\', '"'] ++ ['"', '^']) = some (['\\', '"'], ['"', '^']) := by
  have hlookalike : ∀ x, lookalike ≠ .float x := by
    intro x h
    cases h
  have htyped : ∀ x, typed "a" "b" ≠ .float x := by
    intro x h
    cases h
  refine ⟨hlookalike, htyped, fun h => ?_, written_form_identifies.2 _ _⟩
  have heq : lookalike = typed "a" "b" := (written_form_identifies.1 _ _ hlookalike htyped).1 h
  cases heq

end Value

end QueryPlan
