import QueryPlan.Json.Codec

/-!
# Where a cursor stands

A cursor is unstarted, stands on a result, has run out or has failed
(`CursorState`).  `Progress` adds how many results it has produced; nodes that
produce results keep one.  Failure is absorbing: rewinding does not clear it.
-/

namespace QueryPlan

/-- Where a cursor stands. -/
inductive CursorState where
  /-- Built or rewound, no step yet. -/
  | unstarted
  /-- On a result. -/
  | positioned
  /-- Run out of results, without error. -/
  | exhausted
  /-- Stopped for good by an error. -/
  | failed
  deriving DecidableEq, Repr

namespace CursorState

/-- Will the cursor never produce another result? -/
def isTerminal : CursorState → Bool
  | .exhausted | .failed => true
  | _ => false

/-- Does the cursor stand on a result? -/
def isPositioned : CursorState → Bool
  | .positioned => true
  | _ => false

/-- The name of a state. -/
def name : CursorState → String
  | .unstarted => "unstarted"
  | .positioned => "positioned"
  | .exhausted => "exhausted"
  | .failed => "failed"

/-- All states. -/
def all : List CursorState := [.unstarted, .positioned, .exhausted, .failed]

instance : JsonCodec CursorState where
  toJson s := .ofString s.name
  ofJson? j := do
    let name ← j.unitVariant?
    all.find? fun s => s.name.toList == name

end CursorState

/-! ## Progress -/

/-- A cursor's state and how many results it has produced since it was rewound. -/
structure Progress where
  /-- Where the cursor stands. -/
  state : CursorState
  /-- How many results it has produced. -/
  produced : Nat
  deriving DecidableEq, Repr

namespace Progress

/-- A cursor in the given state that has produced nothing. -/
def new (state : CursorState) : Progress := ⟨state, 0⟩

/-- The cursor moved onto a result. -/
def position (p : Progress) : Progress := ⟨.positioned, p.produced + 1⟩

/-- The cursor ran out of results. -/
def exhaust (p : Progress) : Progress := { p with state := .exhausted }

/-- An error stopped the cursor. -/
def fail (p : Progress) : Progress := { p with state := .failed }

/-- The cursor goes back to its start, unless it has failed; the count starts anew anyway. -/
def rewind (p : Progress) : Progress :=
  ⟨if p.state = .failed then .failed else .unstarted, 0⟩

end Progress

end QueryPlan
