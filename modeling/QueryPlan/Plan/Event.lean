import QueryPlan.Plan.QueryError
import QueryPlan.Plan.Identity
import QueryPlan.Plan.Domain

/-!
# Logged events

What a plan reports to the log: a node that was built around a failure, and the
end of each run.  An event is what happened; its level, its message and its named
fields are read off it.
-/

namespace QueryPlan

/-- How urgent an event is. -/
inductive LogLevel where
  /-- For those who look into a query. -/
  | debug
  /-- For everyone. -/
  | warn
  deriving DecidableEq, Repr

namespace LogLevel

/-- The name of a level. -/
def name : LogLevel → String
  | .debug => "DEBUG"
  | .warn => "WARN"

end LogLevel

/-- Something that is worth a line in the log. -/
inductive Event where
  /-- A node was built around a failure. -/
  | builtFailed (uid : Uid) (err : QueryError) (domain : Domain)
  /-- A run over the node came to its end after so many results. -/
  | finished (uid : Uid) (results : Nat)
  /-- An error stopped a run over the node after so many results. -/
  | stopped (uid : Uid) (results : Nat) (err : QueryError)
  deriving DecidableEq, Repr

namespace Event

/-- The level of an event. -/
def level : Event → LogLevel
  | .builtFailed .. | .finished .. => .debug
  | .stopped .. => .warn

/-- The message of an event. -/
def message : Event → String
  | .builtFailed .. => "plan node carries construction failure"
  | .finished .. => "iteration finished"
  | .stopped .. => "iteration stopped"

/-- The node that an event is about. -/
def uid : Event → Uid
  | .builtFailed uid .. | .finished uid _ | .stopped uid .. => uid

/-- A count as the text of a field. -/
def countText (n : Nat) : String := String.ofList (Decimal.ofNat n)

/-- The named fields of an event, the node's identity aside. -/
def fields : Event → List (String × String)
  | .builtFailed _ err domain => [("error", err.message), ("domain", domain.logName)]
  | .finished _ results => [("results", countText results)]
  | .stopped _ results err => [("results", countText results), ("error", err.message)]

end Event

end QueryPlan
