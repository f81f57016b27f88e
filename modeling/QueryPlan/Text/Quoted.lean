/-!
# Quoted text

A literal is written between double quotes.  Inside them a quote, a backslash
and a line feed are written with a backslash in front (`\"`, `\\`, `\n`); every
other character stands for itself, so the closing quote is the first quote
without a backslash before it.  `decode?` finds that quote: it returns the text
and whatever follows the quoted part.

* `Quoted.decode?_encode_append` — what is written reads back, whatever follows.
-/

namespace QueryPlan.Quoted

/-! ## Writing -/

/-- One character inside the quotes. -/
def escape (c : Char) : List Char :=
  if c = '"' then ['\\', '"']
  else if c = '\\' then ['\\', '\\']
  else if c = '\n' then ['\\', 'n']
  else [c]

/-- The text between the quotes. -/
def escapeAll (s : List Char) : List Char := s.flatMap escape

/-- A text in quotes. -/
def encode (s : List Char) : List Char := '"' :: (escapeAll s ++ ['"'])

/-! ## Reading -/

/-- The character that a backslash in front of `c` stands for. -/
def unescape? (c : Char) : Option Char :=
  if c = '"' then some '"'
  else if c = '\\' then some '\\'
  else if c = 'n' then some '\n'
  else none

/-- Reads up to the closing quote; returns the text and the rest behind the quote. -/
def decodeBody? : List Char → Option (List Char × List Char)
  | [] => none
  | '"' :: rest => some ([], rest)
  | '\\' :: c :: rest => do
      let x ← unescape? c
      let (s, rest) ← decodeBody? rest
      return (x :: s, rest)
  | c :: rest => do
      let (s, rest) ← decodeBody? rest
      return (c :: s, rest)

/-- Splits a text that starts with a quoted part into what was quoted and what follows. -/
def decode? : List Char → Option (List Char × List Char)
  | '"' :: rest => decodeBody? rest
  | _ => none

theorem decodeBody?_escape_append (c : Char) (t : List Char) :
    decodeBody? (escape c ++ t) = (decodeBody? t).map fun p => (c :: p.1, p.2) := by
  unfold escape
  split
  · subst_vars; cases h : decodeBody? t <;> simp [decodeBody?, unescape?, h]
  split
  · subst_vars; cases h : decodeBody? t <;> simp [decodeBody?, unescape?, h]
  split
  · subst_vars; cases h : decodeBody? t <;> simp [decodeBody?, unescape?, h]
  · rename_i hq hb _
    rw [List.singleton_append, decodeBody?]
    · cases h : decodeBody? t <;> simp
    all_goals simp_all

theorem decodeBody?_escapeAll_append (s t : List Char) :
    decodeBody? (escapeAll s ++ '"' :: t) = some (s, t) := by
  induction s with
  | nil => simp [escapeAll, decodeBody?]
  | cons c s ih =>
    have : escapeAll (c :: s) = escape c ++ escapeAll s := by simp [escapeAll]
    rw [this, List.append_assoc, decodeBody?_escape_append, ih]
    rfl

/-- A quoted part is self-delimiting: whatever follows it, it reads back, and the rest is left. -/
theorem decode?_encode_append (s t : List Char) : decode? (encode s ++ t) = some (s, t) := by
  have : encode s ++ t = '"' :: (escapeAll s ++ '"' :: t) := by simp [encode]
  rw [this, decode?, decodeBody?_escapeAll_append]

end QueryPlan.Quoted
