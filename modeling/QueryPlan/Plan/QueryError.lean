import QueryPlan.Data.DataError

/-!
# Errors of a query

What stops a query.  Running out of results is none of these: a plan node that has
nothing more to give reports no error at all.
-/

namespace QueryPlan

/-- What stops a query. -/
inductive QueryError where
  /-- The storage backend failed to produce references or values. -/
  | backend (detail : String)
  /-- The query was cancelled through its context. -/
  | cancelled
  /-- The query ran past its deadline. -/
  | deadlineExceeded
  /-- Releasing a node's resources failed. -/
  | release (detail : String)
  /-- A value or reference could not be used. -/
  | data (cause : DataError)
  deriving DecidableEq, Repr

namespace QueryError

/-- The text of an error; an error of the data layer has its own. -/
def message : QueryError → String
  | .backend detail => "backend error: " ++ detail
  | .cancelled => "query cancelled"
  | .deadlineExceeded => "query deadline exceeded"
  | .release detail => "failed to release iterator resources: " ++ detail
  | .data cause => cause.message

/-- Did the query's context stop it, rather than the data or the backend? -/
def isCancellation : QueryError → Bool
  | .cancelled | .deadlineExceeded => true
  | _ => false

end QueryError

end QueryPlan
