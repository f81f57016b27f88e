import QueryPlan.Json.Printer
import QueryPlan.Json.Reader
import QueryPlan.Proofs.Json.Numerals

/-!
# Written JSON reads back

The printer is handed the text that comes after and the reader returns the text that is left, so
both sides of the round trip are said in front of an arbitrary rest.  It must be one that a
numeral does not go on into; the texts that the printer itself puts behind a value are such.
Blanks are skipped wherever the printer may put them, so the way of writing does not matter.

* `Json.Whole` — the values that a text can hold: numerals that keep the rules, and no string
  that has no characters.
* `JsonStyle.Blank` — the ways of writing that add nothing but blanks.
* `Json.ReadsBack` — a written value is read back with enough fuel, which the length of the text
  is (`Json.readsBack_of_whole`).
* `Json.parse?_print` — **a written value is what the text holds.**
-/

namespace QueryPlan

/-! ## Blanks -/

/-- A way of writing JSON that adds nothing but blanks. -/
structure JsonStyle.Blank (st : JsonStyle) : Prop where
  /-- In front of an item, or of a closing bracket. -/
  line : ∀ depth, ∀ c ∈ st.line depth, Json.isBlank c = true
  /-- Behind a colon. -/
  gap : ∀ c ∈ st.gap, Json.isBlank c = true

theorem JsonStyle.blank_compact : JsonStyle.compact.Blank where
  line _ _ h := absurd h List.not_mem_nil
  gap _ h := absurd h List.not_mem_nil

namespace Json

theorem skipBlanks_append {bs : List Char} (h : ∀ c ∈ bs, isBlank c = true) (cs : List Char) :
    skipBlanks (bs ++ cs) = skipBlanks cs :=
  List.dropWhile_append_of_pos h

theorem skipBlanks_cons {c : Char} (h : isBlank c = false) (cs : List Char) :
    skipBlanks (c :: cs) = c :: cs := by
  simp [skipBlanks, h]

theorem readValue?_append {bs : List Char} (h : ∀ c ∈ bs, isBlank c = true) (fuel : Nat)
    (cs : List Char) : readValue? fuel (bs ++ cs) = readValue? fuel cs := by
  cases fuel with
  | zero => simp only [readValue?]
  | succ fuel => simp only [readValue?, skipBlanks_append h]

theorem readMember?_append {bs : List Char} (h : ∀ c ∈ bs, isBlank c = true) (fuel : Nat)
    (cs : List Char) : readMember? fuel (bs ++ cs) = readMember? fuel cs := by
  cases fuel with
  | zero => simp only [readMember?]
  | succ fuel => simp only [readMember?, skipBlanks_append h]

theorem not_digit_of_isBlank {c : Char} (h : isBlank c = true) :
    Digit.ofChar? c = none ∧ c ≠ '.' ∧ c ≠ 'e' ∧ c ≠ 'E' := by
  simp only [isBlank, Bool.or_eq_true, beq_iff_eq] at h
  rcases h with ((rfl | rfl) | rfl) | rfl <;> decide

theorem ends_append {bs cs : List Char} (hbs : ∀ c ∈ bs, isBlank c = true)
    (hcs : Numeral.Ends cs) : Numeral.Ends (bs ++ cs) := by
  cases bs with
  | nil => exact hcs
  | cons b bs => exact not_digit_of_isBlank (hbs b List.mem_cons_self)

/-! ## Values that a text can hold -/

/-- A value that a text can hold. -/
inductive Whole : Json → Prop where
  /-- The word `null`. -/
  | null : Whole .null
  /-- A truth value. -/
  | bool (b : Bool) : Whole (.bool b)
  /-- A number that keeps the rules of the grammar. -/
  | num {n : Numeral} (h : n.WellFormed) : Whole (.num n)
  /-- A string. -/
  | str (s : List Char) : Whole (.str s)
  /-- An array of such values. -/
  | arr {xs : List Json} (h : ∀ x ∈ xs, Whole x) : Whole (.arr xs)
  /-- An object with such values. -/
  | obj {ms : List (List Char × Json)} (h : ∀ m ∈ ms, Whole m.2) : Whole (.obj ms)

/-! ## The printer, one step at a time -/

section Printing

variable (st : JsonStyle) (depth : Nat) (rest : List Char)

theorem printItems_nil : printItems st depth [] rest = rest := rfl

theorem printItems_cons (x : Json) (xs : List Json) :
    printItems st depth (x :: xs) rest =
      ',' :: (st.line depth ++ printBefore st depth x (printItems st depth xs rest)) := rfl

/-- A member in front of `rest`. -/
def printMember (m : List Char × Json) : List Char :=
  JsonText.quote m.1 ++ ':' :: (st.gap ++ printBefore st depth m.2 rest)

theorem printMembers_nil : printMembers st depth [] rest = rest := rfl

theorem printMembers_cons (m : List Char × Json) (ms : List (List Char × Json)) :
    printMembers st depth (m :: ms) rest =
      ',' :: (st.line depth ++ printMember st depth (printMembers st depth ms rest) m) := rfl

theorem printBefore_num (n : Numeral) : printBefore st depth (.num n) rest = n.chars ++ rest :=
  rfl

theorem printBefore_arr_cons (x : Json) (xs : List Json) :
    printBefore st depth (.arr (x :: xs)) rest =
      '[' :: (st.line (depth + 1) ++ printBefore st (depth + 1) x
        (printItems st (depth + 1) xs (st.line depth ++ ']' :: rest))) := rfl

theorem printBefore_obj_cons (m : List Char × Json) (ms : List (List Char × Json)) :
    printBefore st depth (.obj (m :: ms)) rest =
      '{' :: (st.line (depth + 1) ++ printMember st (depth + 1)
        (printMembers st (depth + 1) ms (st.line depth ++ '}' :: rest)) m) := rfl

/-! ## What comes after is left as it is -/

theorem suffix_printItems {xs : List Json}
    (h : ∀ x ∈ xs, ∀ rest, rest <:+ printBefore st depth x rest) :
    rest <:+ printItems st depth xs rest := by
  induction xs with
  | nil => exact List.suffix_refl _
  | cons x xs ih =>
    have hxs : rest <:+ printItems st depth xs rest :=
      ih fun y hy => h y (List.mem_cons_of_mem _ hy)
    have hx := List.IsSuffix.trans hxs (h x List.mem_cons_self _)
    rw [printItems_cons]
    exact List.IsSuffix.trans hx (List.suffix_append (',' :: st.line depth) _)

theorem suffix_printMember {m : List Char × Json}
    (h : ∀ rest, rest <:+ printBefore st depth m.2 rest) :
    rest <:+ printMember st depth rest m := by
  have hgap := List.IsSuffix.trans (h rest) (List.suffix_append (':' :: st.gap) _)
  exact List.IsSuffix.trans hgap (List.suffix_append (JsonText.quote m.1) _)

theorem suffix_printMembers {ms : List (List Char × Json)}
    (h : ∀ m ∈ ms, ∀ rest, rest <:+ printBefore st depth m.2 rest) :
    rest <:+ printMembers st depth ms rest := by
  induction ms with
  | nil => exact List.suffix_refl _
  | cons m ms ih =>
    have hms : rest <:+ printMembers st depth ms rest :=
      ih fun m' hm' => h m' (List.mem_cons_of_mem _ hm')
    have hm := List.IsSuffix.trans hms (suffix_printMember st depth _ (h m List.mem_cons_self))
    rw [printMembers_cons]
    exact List.IsSuffix.trans hm (List.suffix_append (',' :: st.line depth) _)

theorem suffix_printBefore {j : Json} (hj : j.Whole) :
    ∀ (depth : Nat) (rest : List Char), rest <:+ printBefore st depth j rest := by
  induction hj with
  | null => exact fun _ rest => List.suffix_append ['n', 'u', 'l', 'l'] rest
  | bool b =>
    intro depth rest
    cases b with
    | true => exact List.suffix_append ['t', 'r', 'u', 'e'] rest
    | false => exact List.suffix_append ['f', 'a', 'l', 's', 'e'] rest
  | num h => exact fun _ rest => List.suffix_append _ rest
  | str s => exact fun _ rest => List.suffix_append _ rest
  | @arr xs h ih =>
    intro depth rest
    cases xs with
    | nil => exact List.suffix_append ['[', ']'] rest
    | cons x xs =>
      have hend := List.suffix_append (st.line depth ++ [']']) rest
      rw [List.append_assoc] at hend
      have hxs := List.IsSuffix.trans hend (suffix_printItems st (depth + 1) _
        fun y hy => ih y (List.mem_cons_of_mem _ hy) (depth + 1))
      have hx := List.IsSuffix.trans hxs (ih x List.mem_cons_self (depth + 1) _)
      rw [printBefore_arr_cons]
      exact List.IsSuffix.trans hx (List.suffix_append ('[' :: st.line (depth + 1)) _)
  | @obj ms h ih =>
    intro depth rest
    cases ms with
    | nil => exact List.suffix_append ['{', '}'] rest
    | cons m ms =>
      have hend := List.suffix_append (st.line depth ++ ['}']) rest
      rw [List.append_assoc] at hend
      have hms := List.IsSuffix.trans hend (suffix_printMembers st (depth + 1) _
        fun m' hm' => ih m' (List.mem_cons_of_mem _ hm') (depth + 1))
      have hm := List.IsSuffix.trans hms (suffix_printMember st (depth + 1) _
        (ih m List.mem_cons_self (depth + 1)))
      rw [printBefore_obj_cons]
      exact List.IsSuffix.trans hm (List.suffix_append ('{' :: st.line (depth + 1)) _)

end Printing

/-! ## How a written value starts -/

/-- A character that a number can start with. -/
def StartsNumber (c : Char) : Prop := c = '-' ∨ ∃ d : Digit, c = d.toChar

theorem StartsNumber.not_mem {c : Char} (h : StartsNumber c) :
    c ∉ ['{', '[', ']', '"', 'n', 't', 'f'] ∧ isBlank c = false := by
  have hdigit : ∀ d : Digit,
      d.toChar ∉ ['{', '[', ']', '"', 'n', 't', 'f'] ∧ isBlank d.toChar = false := by decide
  rcases h with rfl | ⟨d, rfl⟩
  · decide
  · exact hdigit d

theorem exists_startsNumber {n : Numeral} (hn : n.WellFormed) :
    ∃ c cs, StartsNumber c ∧ n.chars = c :: cs := by
  obtain ⟨d, ds, hwhole⟩ := List.exists_cons_of_ne_nil hn.whole_ne_nil
  simp only [Numeral.chars, hwhole, Decimal.chars, List.map_cons]
  cases n.negative with
  | true => exact ⟨'-', _, .inl rfl, rfl⟩
  | false => exact ⟨d.toChar, _, .inr ⟨d, rfl⟩, rfl⟩

/-- A written value starts with a sign that is neither a blank nor a closing bracket. -/
theorem exists_printBefore_eq_cons (st : JsonStyle) (depth : Nat) {j : Json} (hj : j.Whole)
    (rest : List Char) :
    ∃ c cs, printBefore st depth j rest = c :: cs ∧ isBlank c = false ∧ c ≠ ']' := by
  cases hj with
  | null => exact ⟨'n', _, rfl, rfl, by decide⟩
  | bool b =>
    cases b with
    | true => exact ⟨'t', _, rfl, rfl, by decide⟩
    | false => exact ⟨'f', _, rfl, rfl, by decide⟩
  | num hn =>
    obtain ⟨c, cs, hc, hcs⟩ := exists_startsNumber hn
    obtain ⟨hmem, hblank⟩ := hc.not_mem
    refine ⟨c, cs ++ rest, by rw [printBefore_num, hcs]; rfl, hblank, ?_⟩
    rintro rfl
    simp at hmem
  | str s => exact ⟨'"', _, rfl, rfl, by decide⟩
  | @arr xs h =>
    cases xs with
    | nil => exact ⟨'[', _, rfl, rfl, by decide⟩
    | cons x xs => exact ⟨'[', _, rfl, rfl, by decide⟩
  | @obj ms h =>
    cases ms with
    | nil => exact ⟨'{', _, rfl, rfl, by decide⟩
    | cons m ms => exact ⟨'{', _, rfl, rfl, by decide⟩

/-! ## The reader, once the first sign is known -/

theorem readValue?_number {c : Char} (hc : StartsNumber c) (fuel : Nat) (cs : List Char) :
    readValue? (fuel + 1) (c :: cs) =
      (Numeral.read? (c :: cs)).map fun (n, cs) => (.num n, cs) := by
  obtain ⟨hmem, hblank⟩ := hc.not_mem
  simp only [List.mem_cons, List.not_mem_nil, or_false, not_or] at hmem
  rw [readValue?, skipBlanks_cons hblank]
  split
  all_goals simp_all

theorem readValue?_string (fuel : Nat) (s rest : List Char) :
    readValue? (fuel + 1) (JsonText.quote s ++ rest) = some (.str s, rest) := by
  have hquote : JsonText.quote s ++ rest = '"' :: (JsonText.escapeAll s ++ '"' :: rest) := by
    simp [JsonText.quote]
  rw [hquote, readValue?, skipBlanks_cons rfl]
  simp [JsonText.read?_escapeAll_append]

theorem readValue?_array {fuel : Nat} {cs cs' rest rest' : List Char} {c : Char} {x : Json}
    {xs : List Json} (hskip : skipBlanks cs = c :: cs') (hc : c ≠ ']')
    (hx : readValue? fuel (c :: cs') = some (x, rest))
    (hxs : readItems? fuel rest = some (xs, rest')) :
    readValue? (fuel + 1) ('[' :: cs) = some (.arr (x :: xs), rest') := by
  rw [readValue?, skipBlanks_cons rfl]
  simp only [hskip]
  split
  · simp_all
  · simp [hx, hxs]

theorem readValue?_object {fuel : Nat} {cs cs' rest rest' : List Char}
    {m : Option (List Char) × Json} {ms : List (Option (List Char) × Json)}
    (hskip : skipBlanks cs = '"' :: cs') (hm : readMember? fuel ('"' :: cs') = some (m, rest))
    (hms : readMembers? fuel rest = some (ms, rest')) :
    readValue? (fuel + 1) ('{' :: cs) = some (ofMembers (m :: ms), rest') := by
  rw [readValue?, skipBlanks_cons rfl]
  simp [hskip, hm, hms]

theorem readItems?_comma {fuel : Nat} {cs rest rest' : List Char} {x : Json} {xs : List Json}
    (hx : readValue? fuel cs = some (x, rest)) (hxs : readItems? fuel rest = some (xs, rest')) :
    readItems? (fuel + 1) (',' :: cs) = some (x :: xs, rest') := by
  rw [readItems?, skipBlanks_cons rfl]
  simp [hx, hxs]

theorem readMembers?_comma {fuel : Nat} {cs rest rest' : List Char}
    {m : Option (List Char) × Json} {ms : List (Option (List Char) × Json)}
    (hm : readMember? fuel cs = some (m, rest)) (hms : readMembers? fuel rest = some (ms, rest')) :
    readMembers? (fuel + 1) (',' :: cs) = some (m :: ms, rest') := by
  rw [readMembers?, skipBlanks_cons rfl]
  simp [hm, hms]

theorem readMember?_quote {fuel : Nat} {key cs rest : List Char} {x : Json}
    (hx : readValue? fuel cs = some (x, rest)) :
    readMember? (fuel + 1) (JsonText.quote key ++ ':' :: cs) = some ((some key, x), rest) := by
  have hquote : JsonText.quote key ++ ':' :: cs =
      '"' :: (JsonText.escapeAll key ++ '"' :: ':' :: cs) := by
    simp [JsonText.quote]
  rw [hquote, readMember?, skipBlanks_cons rfl]
  simp [JsonText.read?_escapeAll_append, skipBlanks_cons (c := ':') rfl, hx]

/-! ## Values -/

/-- The value is read back from its text with as much fuel as the text is long. -/
def ReadsBack (st : JsonStyle) (depth : Nat) (j : Json) : Prop :=
  ∀ (fuel : Nat) (rest : List Char), Numeral.Ends rest →
    (printBefore st depth j rest).length < fuel →
    readValue? fuel (printBefore st depth j rest) = some (j, rest)

section Reading

variable {st : JsonStyle} {depth : Nat}

theorem ends_printItems (st : JsonStyle) (depth : Nat) (xs : List Json) {rest : List Char}
    (h : Numeral.Ends rest) :
    Numeral.Ends (printItems st depth xs rest) := by
  cases xs with
  | nil => exact h
  | cons x xs => exact ⟨rfl, by decide, by decide, by decide⟩

theorem ends_printMembers (st : JsonStyle) (depth : Nat) (ms : List (List Char × Json))
    {rest : List Char} (h : Numeral.Ends rest) :
    Numeral.Ends (printMembers st depth ms rest) := by
  cases ms with
  | nil => exact h
  | cons m ms => exact ⟨rfl, by decide, by decide, by decide⟩

theorem readItems?_print (hst : st.Blank) {bs : List Char} (hbs : ∀ c ∈ bs, isBlank c = true)
    {xs : List Json} (hwhole : ∀ x ∈ xs, x.Whole) (h : ∀ x ∈ xs, ReadsBack st depth x)
    (rest : List Char) :
    ∀ fuel, (printItems st depth xs (bs ++ ']' :: rest)).length < fuel →
      readItems? fuel (printItems st depth xs (bs ++ ']' :: rest)) = some (xs, rest) := by
  have hend : Numeral.Ends (bs ++ ']' :: rest) :=
    ends_append hbs ⟨rfl, by decide, by decide, by decide⟩
  induction xs with
  | nil =>
    intro fuel hfuel
    obtain ⟨fuel, rfl⟩ : ∃ n, fuel = n + 1 := ⟨fuel - 1, by omega⟩
    rw [printItems_nil, readItems?, skipBlanks_append hbs, skipBlanks_cons rfl]
    rfl
  | cons x xs ih =>
    intro fuel hfuel
    obtain ⟨fuel, rfl⟩ : ∃ n, fuel = n + 1 := ⟨fuel - 1, by omega⟩
    have hrest := List.IsSuffix.length_le (suffix_printBefore st (hwhole x List.mem_cons_self)
      depth (printItems st depth xs (bs ++ ']' :: rest)))
    rw [printItems_cons] at hfuel ⊢
    simp only [List.length_cons, List.length_append] at hfuel
    have hx : readValue? fuel (st.line depth ++ printBefore st depth x
        (printItems st depth xs (bs ++ ']' :: rest))) =
          some (x, printItems st depth xs (bs ++ ']' :: rest)) := by
      rw [readValue?_append (hst.line depth)]
      exact h x List.mem_cons_self fuel _ (ends_printItems st depth xs hend) (by omega)
    exact readItems?_comma hx (ih (fun y hy => hwhole y (List.mem_cons_of_mem _ hy))
      (fun y hy => h y (List.mem_cons_of_mem _ hy)) fuel (by omega))

/-- A member as the reader returns it. -/
def asRead (m : List Char × Json) : Option (List Char) × Json := (some m.1, m.2)

theorem readMember?_print (hst : st.Blank) {m : List Char × Json} (h : ReadsBack st depth m.2)
    {rest : List Char} (hrest : Numeral.Ends rest) {fuel : Nat}
    (hfuel : (printMember st depth rest m).length < fuel) :
    readMember? fuel (printMember st depth rest m) = some (asRead m, rest) := by
  obtain ⟨fuel, rfl⟩ : ∃ n, fuel = n + 1 := ⟨fuel - 1, by omega⟩
  simp only [printMember, List.length_append, List.length_cons] at hfuel
  refine readMember?_quote ?_
  rw [readValue?_append hst.gap]
  exact h fuel rest hrest (by omega)

theorem readMembers?_print (hst : st.Blank) {bs : List Char} (hbs : ∀ c ∈ bs, isBlank c = true)
    {ms : List (List Char × Json)} (hwhole : ∀ m ∈ ms, m.2.Whole)
    (h : ∀ m ∈ ms, ReadsBack st depth m.2) (rest : List Char) :
    ∀ fuel, (printMembers st depth ms (bs ++ '}' :: rest)).length < fuel →
      readMembers? fuel (printMembers st depth ms (bs ++ '}' :: rest)) =
        some (ms.map asRead, rest) := by
  have hend : Numeral.Ends (bs ++ '}' :: rest) :=
    ends_append hbs ⟨rfl, by decide, by decide, by decide⟩
  induction ms with
  | nil =>
    intro fuel hfuel
    obtain ⟨fuel, rfl⟩ : ∃ n, fuel = n + 1 := ⟨fuel - 1, by omega⟩
    rw [printMembers_nil, readMembers?, skipBlanks_append hbs, skipBlanks_cons rfl]
    rfl
  | cons m ms ih =>
    intro fuel hfuel
    obtain ⟨fuel, rfl⟩ : ∃ n, fuel = n + 1 := ⟨fuel - 1, by omega⟩
    have hrest := List.IsSuffix.length_le (suffix_printMember st depth
      (printMembers st depth ms (bs ++ '}' :: rest))
      (suffix_printBefore st (hwhole m List.mem_cons_self) depth))
    rw [printMembers_cons] at hfuel ⊢
    simp only [List.length_cons, List.length_append] at hfuel
    have hm : readMember? fuel (st.line depth ++ printMember st depth
        (printMembers st depth ms (bs ++ '}' :: rest)) m) =
          some (asRead m, printMembers st depth ms (bs ++ '}' :: rest)) := by
      rw [readMember?_append (hst.line depth)]
      exact readMember?_print hst (h m List.mem_cons_self) (ends_printMembers st depth ms hend)
        (by omega)
    exact readMembers?_comma hm (ih (fun m' hm' => hwhole m' (List.mem_cons_of_mem _ hm'))
      (fun m' hm' => h m' (List.mem_cons_of_mem _ hm')) fuel (by omega))

theorem ofMembers_asRead (ms : List (List Char × Json)) : ofMembers (ms.map asRead) = .obj ms := by
  have hmap : ∀ f : Option (List Char) × Json → Option (List Char × Json),
      (∀ m, f (asRead m) = some m) → (ms.map asRead).mapM f = some ms := by
    intro f hf
    induction ms with
    | nil => rfl
    | cons m ms ih => simp [hf, ih]
  rw [ofMembers, hmap _ fun m => rfl]

theorem readsBack_arr_cons (hst : st.Blank) {x : Json} {xs : List Json}
    (hwhole : ∀ y ∈ x :: xs, y.Whole) (h : ∀ y ∈ x :: xs, ReadsBack st (depth + 1) y) :
    ReadsBack st depth (.arr (x :: xs)) := by
  intro fuel rest _ hfuel
  obtain ⟨fuel, rfl⟩ : ∃ n, fuel = n + 1 := ⟨fuel - 1, by omega⟩
  rw [printBefore_arr_cons] at hfuel ⊢
  simp only [List.length_cons, List.length_append] at hfuel
  have hend : Numeral.Ends (st.line depth ++ ']' :: rest) :=
    ends_append (hst.line depth) ⟨rfl, by decide, by decide, by decide⟩
  have hrest := List.IsSuffix.length_le (suffix_printBefore st (hwhole x List.mem_cons_self)
    (depth + 1) (printItems st (depth + 1) xs (st.line depth ++ ']' :: rest)))
  have hx := h x List.mem_cons_self fuel _ (ends_printItems st (depth + 1) xs hend) (by omega)
  have hxs := readItems?_print hst (hst.line depth)
    (fun y hy => hwhole y (List.mem_cons_of_mem _ hy))
    (fun y hy => h y (List.mem_cons_of_mem _ hy)) rest fuel (by omega)
  -- the reader looks for a closing bracket first, and the first item does not start with one
  obtain ⟨c, cs, hcons, hblank, hc⟩ := exists_printBefore_eq_cons st (depth + 1)
    (hwhole x List.mem_cons_self) (printItems st (depth + 1) xs (st.line depth ++ ']' :: rest))
  rw [hcons] at hx ⊢
  refine readValue?_array ?_ hc hx hxs
  rw [skipBlanks_append (hst.line _), skipBlanks_cons hblank]

theorem readsBack_obj_cons (hst : st.Blank) {m : List Char × Json} {ms : List (List Char × Json)}
    (hwhole : ∀ m' ∈ m :: ms, m'.2.Whole)
    (h : ∀ m' ∈ m :: ms, ReadsBack st (depth + 1) m'.2) :
    ReadsBack st depth (.obj (m :: ms)) := by
  intro fuel rest _ hfuel
  obtain ⟨fuel, rfl⟩ : ∃ n, fuel = n + 1 := ⟨fuel - 1, by omega⟩
  rw [printBefore_obj_cons] at hfuel ⊢
  simp only [List.length_cons, List.length_append] at hfuel
  have hend : Numeral.Ends (st.line depth ++ '}' :: rest) :=
    ends_append (hst.line depth) ⟨rfl, by decide, by decide, by decide⟩
  have hrest := List.IsSuffix.length_le (suffix_printMember st (depth + 1)
    (printMembers st (depth + 1) ms (st.line depth ++ '}' :: rest))
    (suffix_printBefore st (hwhole m List.mem_cons_self) (depth + 1)))
  have hfuel' : (printMember st (depth + 1)
      (printMembers st (depth + 1) ms (st.line depth ++ '}' :: rest)) m).length < fuel := by omega
  have hm := readMember?_print hst (h m List.mem_cons_self)
    (ends_printMembers st (depth + 1) ms hend) hfuel'
  have hms := readMembers?_print hst (hst.line depth)
    (fun m' hm' => hwhole m' (List.mem_cons_of_mem _ hm'))
    (fun m' hm' => h m' (List.mem_cons_of_mem _ hm')) rest fuel (by omega)
  have hskip : skipBlanks (st.line (depth + 1) ++ printMember st (depth + 1)
      (printMembers st (depth + 1) ms (st.line depth ++ '}' :: rest)) m) =
        printMember st (depth + 1)
          (printMembers st (depth + 1) ms (st.line depth ++ '}' :: rest)) m := by
    rw [skipBlanks_append (hst.line _)]
    rfl
  rw [readValue?_object hskip hm hms, ← List.map_cons, ofMembers_asRead]

/-- **A written value reads back**, in front of any text that a numeral does not go on into. -/
theorem readsBack_of_whole (hst : st.Blank) {j : Json} (hj : j.Whole) :
    ∀ depth, ReadsBack st depth j := by
  induction hj with
  | null =>
    intro depth fuel rest _ hfuel
    obtain ⟨fuel, rfl⟩ : ∃ n, fuel = n + 1 := ⟨fuel - 1, by omega⟩
    rfl
  | bool b =>
    intro depth fuel rest _ hfuel
    obtain ⟨fuel, rfl⟩ : ∃ n, fuel = n + 1 := ⟨fuel - 1, by omega⟩
    cases b <;> rfl
  | num hn =>
    intro depth fuel rest hrest hfuel
    obtain ⟨fuel, rfl⟩ : ∃ n, fuel = n + 1 := ⟨fuel - 1, by omega⟩
    obtain ⟨c, cs, hc, hcs⟩ := exists_startsNumber hn
    have hread := Numeral.read?_chars_append hn hrest
    rw [hcs] at hread
    rw [printBefore_num, hcs, List.cons_append, readValue?_number hc, ← List.cons_append, hread]
    rfl
  | str s =>
    intro depth fuel rest _ hfuel
    obtain ⟨fuel, rfl⟩ : ∃ n, fuel = n + 1 := ⟨fuel - 1, by omega⟩
    exact readValue?_string fuel s rest
  | @arr xs h ih =>
    intro depth
    cases xs with
    | nil =>
      intro fuel rest _ hfuel
      obtain ⟨fuel, rfl⟩ : ∃ n, fuel = n + 1 := ⟨fuel - 1, by omega⟩
      rfl
    | cons x xs => exact readsBack_arr_cons hst h fun y hy => ih y hy _
  | @obj ms h ih =>
    intro depth
    cases ms with
    | nil =>
      intro fuel rest _ hfuel
      obtain ⟨fuel, rfl⟩ : ∃ n, fuel = n + 1 := ⟨fuel - 1, by omega⟩
      rfl
    | cons m ms => exact readsBack_obj_cons hst h fun m' hm' => ih m' hm' _

/-- **A written value is what the text holds.** -/
theorem parse?_print (hst : st.Blank) {j : Json} (hj : j.Whole) : parse? (print st j) = some j := by
  have hread := readsBack_of_whole hst hj 0 ((print st j).length + 1) [] trivial
    (Nat.lt_succ_self _)
  rw [parse?]
  change readValue? ((print st j).length + 1) (print st j) = some (j, []) at hread
  rw [hread]
  rfl

end Reading

end Json

end QueryPlan
