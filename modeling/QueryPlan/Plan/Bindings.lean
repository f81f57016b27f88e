/-!
# Tag bindings

Names bound to things, in the order in which the names were first bound.  Binding
a name again replaces what it is bound to and leaves its place.

* `Bindings.get?_insert` — after a binding, the name has it and no other name changed.
-/

namespace QueryPlan

/-- Names bound to things. -/
structure Bindings (α : Type) where
  /-- The names and what they are bound to, each name once. -/
  entries : List (String × α)
  deriving BEq, Repr

namespace Bindings

variable {α : Type}

/-- No bindings. -/
def empty : Bindings α := ⟨[]⟩

/-- What a name is bound to. -/
def get? (b : Bindings α) (name : String) : Option α := b.entries.lookup name

/-- Binds a name in a list of entries. -/
def insertEntry (name : String) (x : α) : List (String × α) → List (String × α)
  | [] => [(name, x)]
  | (n, y) :: es => if n = name then (n, x) :: es else (n, y) :: insertEntry name x es

/-- Binds a name, in place of what it was bound to. -/
def insert (b : Bindings α) (name : String) (x : α) : Bindings α :=
  ⟨insertEntry name x b.entries⟩

/-- Binds every name of `c` as `c` does. -/
def overlay (b c : Bindings α) : Bindings α :=
  c.entries.foldl (fun b (name, x) => b.insert name x) b

theorem lookup_entry (n : String) (y : α) (es : List (String × α)) (k : String) :
    ((n, y) :: es).lookup k = if k = n then some y else es.lookup k := by
  by_cases hk : k = n
  · subst hk
    rw [List.lookup_cons_self, if_pos rfl]
  · rw [List.lookup_cons, beq_eq_false_iff_ne.2 hk, if_neg hk]

theorem lookup_insertEntry (name : String) (x : α) (es : List (String × α)) (k : String) :
    (insertEntry name x es).lookup k = if k = name then some x else es.lookup k := by
  induction es with
  | nil => rw [insertEntry, lookup_entry]
  | cons e es ih =>
    obtain ⟨n, y⟩ := e
    by_cases hn : n = name
    · subst hn
      rw [insertEntry, if_pos rfl, lookup_entry, lookup_entry]
      by_cases hk : k = n <;> simp [hk]
    · rw [insertEntry, if_neg hn, lookup_entry, lookup_entry, ih]
      by_cases hk : k = n
      · subst hk
        simp [hn]
      · simp [hk]

/-- A binding changes what its own name is bound to and nothing else. -/
theorem get?_insert (b : Bindings α) (name : String) (x : α) (k : String) :
    (b.insert name x).get? k = if k = name then some x else b.get? k :=
  lookup_insertEntry name x b.entries k

end Bindings

end QueryPlan
