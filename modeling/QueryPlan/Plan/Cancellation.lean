import QueryPlan.Number.Power
import QueryPlan.Plan.QueryError

/-!
# Cancellation and deadlines

Work on a query is handed a `Context`: a cancellation token and perhaps a
deadline.  Copies of a token share one flag, so a token is the number of its flag
and the flags themselves stand in a `Switchboard`; deadlines belong to the context
that has them.  What a node sees when it looks at its context is a `Signal`.

* `Context.signal` — an explicit cancellation hides a passed deadline.
* `Context.withTimeout` — a deadline too far away to be set is none at all.
-/

namespace QueryPlan

/-! ## Signals -/

/-- What a look at a context shows. -/
inductive Signal where
  /-- Nothing stops the query. -/
  | clear
  /-- The query was cancelled. -/
  | cancelled
  /-- The deadline has passed. -/
  | expired
  deriving DecidableEq, Repr

namespace Signal

/-- The error to report when stopping at this signal. -/
def error? : Signal → Option QueryError
  | .clear => none
  | .cancelled => some .cancelled
  | .expired => some .deadlineExceeded

/-- Has the context fired? -/
def fired (s : Signal) : Bool := s.error?.isSome

/-- The signal as the outcome of a check. -/
def check (s : Signal) : Except QueryError Unit :=
  match s.error? with
  | none => .ok ()
  | some e => .error e

end Signal

/-! ## Time -/

/-- A point in time, in nanoseconds. -/
abbrev Instant := Nat

/-- The first point in time that a deadline cannot be set to. -/
def Instant.limit : Nat := Power.two 63 * Power.ten 9

/-- The point `span` nanoseconds after `now`, if a deadline can be set to it. -/
def Instant.after? (now : Instant) (span : Nat) : Option Instant :=
  if now + span < Instant.limit then some (now + span) else none

/-! ## Tokens and contexts -/

/-- A handle that cancels a query; handles with the same flag cancel the same query. -/
structure Token where
  /-- The number of the shared flag. -/
  flag : Nat
  deriving DecidableEq, Repr

/-- The flags that tokens share. -/
structure Switchboard where
  /-- For each flag, whether it was raised. -/
  flags : List Bool
  deriving DecidableEq, Repr

namespace Switchboard

/-- Was this token's flag raised? -/
def isCancelled (b : Switchboard) (t : Token) : Bool := b.flags[t.flag]?.getD false

/-- Raises this token's flag. -/
def cancel (b : Switchboard) (t : Token) : Switchboard := ⟨b.flags.set t.flag true⟩

/-- A token with a flag of its own, not raised. -/
def newToken (b : Switchboard) : Token × Switchboard :=
  (⟨b.flags.length⟩, ⟨b.flags ++ [false]⟩)

end Switchboard

/-- What a query's work is handed. -/
structure Context where
  /-- The token that cancels the query. -/
  token : Token
  /-- The time from which on the query counts as expired. -/
  deadline : Option Instant
  deriving DecidableEq, Repr

namespace Context

/-- A context that observes a token and has no deadline. -/
def ofToken (t : Token) : Context := ⟨t, none⟩

/-- The context with a deadline. -/
def withDeadline (c : Context) (deadline : Instant) : Context :=
  { c with deadline := some deadline }

/-- The context with a deadline `span` nanoseconds from now.  A deadline too far away to be
set leaves the context without one, whatever it had before. -/
def withTimeout (c : Context) (now : Instant) (span : Nat) : Context :=
  { c with deadline := Instant.after? now span }

/-- Has the deadline passed? -/
def isExpired (c : Context) (now : Instant) : Bool :=
  match c.deadline with
  | none => false
  | some deadline => decide (deadline ≤ now)

/-- What a look at the context shows. -/
def signal (c : Context) (b : Switchboard) (now : Instant) : Signal :=
  if b.isCancelled c.token then .cancelled
  else if c.isExpired now then .expired
  else .clear

end Context

end QueryPlan
