import QueryPlan.Text.Hex

/-!
# JSON strings

Inside its quotes a JSON string escapes the quote, the backslash and the control
characters below U+0020; five of those have a letter of their own and the others
are written as `\u` and four hexadecimal digits.  A reader meets more than a
writer produces: any character may come as `\u` with its code, one beyond U+FFFF
as two such escapes, the halves of a surrogate pair.

Reading has two steps.  `JsonText.readCodes?` takes the text up to the closing
quote apart into codes, where each half of a pair is a code of its own;
`JsonText.joinHalves?` joins the halves, and fails if one stands alone.

* `JsonText.read?_escapeAll_append` — a written string reads back, whatever follows.
-/

namespace QueryPlan.JsonText

/-! ## Writing -/

/-- One character inside the quotes. -/
def escape (c : Char) : List Char :=
  if c = '"' then ['\\', '"']
  else if c = '\\' then ['\\', '\\']
  else if c = '\x08' then ['\\', 'b']
  else if c = '\x0c' then ['\\', 'f']
  else if c = '\n' then ['\\', 'n']
  else if c = '\r' then ['\\', 'r']
  else if c = '\t' then ['\\', 't']
  else if c.toNat < 32 then
    ['\\', 'u', '0', '0', Hex.digit (c.toNat / 16), Hex.digit (c.toNat % 16)]
  else [c]

/-- The text between the quotes. -/
def escapeAll (s : List Char) : List Char := s.flatMap escape

/-- A string with its quotes. -/
def quote (s : List Char) : List Char := '"' :: (escapeAll s ++ ['"'])

/-! ## Reading escapes -/

/-- The number written by four hexadecimal digits. -/
def hexFour? (a b c d : Char) : Option Nat := do
  let a ← Hex.value? a
  let b ← Hex.value? b
  let c ← Hex.value? c
  let d ← Hex.value? d
  return ((a * 16 + b) * 16 + c) * 16 + d

/-- The code that a backslash in front of `c` stands for, the letter `u` aside. -/
def unescape? (c : Char) : Option Nat :=
  if c = '"' ∨ c = '\\' ∨ c = '/' then some c.toNat
  else if c = 'b' then some 8
  else if c = 'f' then some 12
  else if c = 'n' then some 10
  else if c = 'r' then some 13
  else if c = 't' then some 9
  else none

/-- The codes up to the closing quote, and the rest behind it.  A control character must
be escaped. -/
def readCodes? : List Char → Option (List Nat × List Char)
  | [] => none
  | '"' :: cs => some ([], cs)
  | '\\' :: 'u' :: a :: b :: c :: d :: cs => do
      let code ← hexFour? a b c d
      let (codes, cs) ← readCodes? cs
      return (code :: codes, cs)
  | '\\' :: c :: cs => do
      let code ← unescape? c
      let (codes, cs) ← readCodes? cs
      return (code :: codes, cs)
  | c :: cs =>
    if c.toNat < 32 then none
    else do
      let (codes, cs) ← readCodes? cs
      return (c.toNat :: codes, cs)

/-! ## Surrogate pairs -/

/-- The first half of a pair. -/
def isLead (code : Nat) : Bool := decide (0xD800 ≤ code ∧ code ≤ 0xDBFF)

/-- The second half of a pair. -/
def isTrail (code : Nat) : Bool := decide (0xDC00 ≤ code ∧ code ≤ 0xDFFF)

/-- The character that a pair stands for. -/
def joined (lead trail : Nat) : Char :=
  Char.ofNat (0x10000 + (lead - 0xD800) * 0x400 + (trail - 0xDC00))

/-- The characters of a code list, each pair of halves joined; none if a half stands alone. -/
def joinHalves? : List Nat → Option (List Char)
  | [] => some []
  | [code] => if isLead code ∨ isTrail code then none else some [Char.ofNat code]
  | code :: next :: codes =>
    if isLead code then
      if isTrail next then (joinHalves? codes).map (joined code next :: ·) else none
    else if isTrail code then none
    else (joinHalves? (next :: codes)).map (Char.ofNat code :: ·)

/-- A string whose opening quote has been passed: its characters, none if it has no
characters, and the rest behind the closing quote. -/
def read? (cs : List Char) : Option (Option (List Char) × List Char) :=
  (readCodes? cs).map fun (codes, rest) => (joinHalves? codes, rest)

/-! ## What is written reads back -/

/-- A code that two digits suffice for, with two zeros in front of them. -/
theorem hexFour?_digit (n : Nat) (h : n < 256) :
    hexFour? '0' '0' (Hex.digit (n / 16)) (Hex.digit (n % 16)) = some n := by
  have hzero : Hex.value? '0' = some 0 := rfl
  have hhigh : Hex.value? (Hex.digit (n / 16)) = some (n / 16) := Hex.value?_digit _ (by omega)
  have hlow : Hex.value? (Hex.digit (n % 16)) = some (n % 16) := Hex.value?_digit _ (by omega)
  have hn : ((0 * 16 + 0) * 16 + n / 16) * 16 + n % 16 = n := by omega
  rw [hexFour?, hzero, hhigh, hlow]
  exact congrArg some hn

theorem readCodes?_escape_append (c : Char) (t : List Char) :
    readCodes? (escape c ++ t) = (readCodes? t).map fun p => (c.toNat :: p.1, p.2) := by
  unfold escape
  split
  · subst_vars; cases h : readCodes? t <;> simp [readCodes?, unescape?, h]
  split
  · subst_vars; cases h : readCodes? t <;> simp [readCodes?, unescape?, h]
  split
  · subst_vars; cases h : readCodes? t <;> simp [readCodes?, unescape?, h]
  split
  · subst_vars; cases h : readCodes? t <;> simp [readCodes?, unescape?, h]
  split
  · subst_vars; cases h : readCodes? t <;> simp [readCodes?, unescape?, h]
  split
  · subst_vars; cases h : readCodes? t <;> simp [readCodes?, unescape?, h]
  split
  · subst_vars; cases h : readCodes? t <;> simp [readCodes?, unescape?, h]
  split
  · rename_i h32
    have hx := hexFour?_digit c.toNat (by omega)
    cases h : readCodes? t <;> simp [readCodes?, hx, h]
  · rename_i hq hb _ _ _ _ _ h32
    rw [List.singleton_append, readCodes?]
    · cases h : readCodes? t <;> simp [h32]
    all_goals simp_all

theorem readCodes?_escapeAll_append (s t : List Char) :
    readCodes? (escapeAll s ++ '"' :: t) = some (s.map Char.toNat, t) := by
  induction s with
  | nil => simp [escapeAll, readCodes?]
  | cons c s ih =>
    have hc : escapeAll (c :: s) = escape c ++ escapeAll s := by simp [escapeAll]
    rw [hc, List.append_assoc, readCodes?_escape_append, ih]
    rfl

theorem isLead_toNat (c : Char) : isLead c.toNat = false := by
  have h := c.valid
  simp only [isLead, decide_eq_false_iff_not]
  have : c.val.toNat = c.toNat := rfl
  simp only [UInt32.isValidChar, Nat.isValidChar] at h
  omega

theorem isTrail_toNat (c : Char) : isTrail c.toNat = false := by
  have h := c.valid
  simp only [isTrail, decide_eq_false_iff_not]
  have : c.val.toNat = c.toNat := rfl
  simp only [UInt32.isValidChar, Nat.isValidChar] at h
  omega

theorem joinHalves?_map_toNat (s : List Char) : joinHalves? (s.map Char.toNat) = some s := by
  induction s with
  | nil => rfl
  | cons c s ih =>
    cases s with
    | nil => simp [joinHalves?, isLead_toNat, isTrail_toNat, Char.ofNat_toNat]
    | cons d s =>
      simp only [List.map_cons] at ih ⊢
      rw [joinHalves?, ih]
      simp [isLead_toNat, isTrail_toNat, Char.ofNat_toNat]

/-- The inside of a written string and its closing quote read back, whatever follows. -/
theorem read?_escapeAll_append (s t : List Char) :
    read? (escapeAll s ++ '"' :: t) = some (some s, t) := by
  simp [read?, readCodes?_escapeAll_append, joinHalves?_map_toNat]

end QueryPlan.JsonText
