import QueryPlan.Plan.Cancellation

/-!
# Sessions

Contexts and tokens are made from one another: a context from a token, a token from
a context, a copy with another deadline from either.  A `Session` holds all that
were made, in the order in which they were made, with the flags they share and the
present time; a `SessionStep` makes one more, cancels through one, or lets time
pass.
-/

namespace QueryPlan

/-- Contexts and tokens made from one another, in the order in which they were made. -/
structure Session where
  /-- The flags of all tokens. -/
  board : Switchboard
  /-- The contexts. -/
  contexts : List Context
  /-- The tokens that are held apart from a context. -/
  tokens : List Token
  /-- The present time. -/
  now : Instant
  deriving Repr

/-- A step in a session.  Contexts and tokens are named by their numbers. -/
inductive SessionStep where
  /-- Makes a context with a flag of its own. -/
  | newContext
  /-- Makes a context that observes a token. -/
  | contextOf (token : Nat)
  /-- Copies a context. -/
  | copyContext (context : Nat)
  /-- Copies a context and gives the copy a deadline. -/
  | withDeadline (context : Nat) (deadline : Instant)
  /-- Copies a context and gives the copy a deadline so many nanoseconds from now. -/
  | withTimeout (context : Nat) (span : Nat)
  /-- Cancels through a context. -/
  | cancelContext (context : Nat)
  /-- Makes a token with a flag of its own. -/
  | newToken
  /-- Takes a context's token. -/
  | tokenOf (context : Nat)
  /-- Copies a token. -/
  | copyToken (token : Nat)
  /-- Cancels through a token. -/
  | cancelToken (token : Nat)
  /-- Lets time pass. -/
  | wait (span : Nat)
  deriving Repr

namespace Session

/-- A session without contexts and tokens. -/
def new (now : Instant) : Session := ⟨⟨[]⟩, [], [], now⟩

/-- Adds a context. -/
def addContext (s : Session) (c : Context) : Session :=
  { s with contexts := s.contexts ++ [c] }

/-- Adds a token. -/
def addToken (s : Session) (t : Token) : Session := { s with tokens := s.tokens ++ [t] }

/-- Raises a token's flag. -/
def cancel (s : Session) (t : Token) : Session := { s with board := s.board.cancel t }

/-- Goes on with a context, if there is one of that number. -/
def onContext (s : Session) (i : Nat) (f : Context → Session) : Session :=
  match s.contexts[i]? with
  | none => s
  | some c => f c

/-- Goes on with a token, if there is one of that number. -/
def onToken (s : Session) (i : Nat) (f : Token → Session) : Session :=
  match s.tokens[i]? with
  | none => s
  | some t => f t

/-- What a step makes of a session. -/
def step (s : Session) : SessionStep → Session
  | .newContext =>
    let (t, board) := s.board.newToken
    ({ s with board }).addContext (.ofToken t)
  | .contextOf i => s.onToken i fun t => s.addContext (.ofToken t)
  | .copyContext i => s.onContext i s.addContext
  | .withDeadline i deadline => s.onContext i fun c => s.addContext (c.withDeadline deadline)
  | .withTimeout i span => s.onContext i fun c => s.addContext (c.withTimeout s.now span)
  | .cancelContext i => s.onContext i fun c => s.cancel c.token
  | .newToken =>
    let (t, board) := s.board.newToken
    ({ s with board }).addToken t
  | .tokenOf i => s.onContext i fun c => s.addToken c.token
  | .copyToken i => s.onToken i s.addToken
  | .cancelToken i => s.onToken i s.cancel
  | .wait span => { s with now := s.now + span }

/-- What steps make of a session. -/
def run (s : Session) (steps : List SessionStep) : Session := steps.foldl step s

/-- What a look at a context shows now; a context that does not exist shows nothing. -/
def signal (s : Session) (i : Nat) : Signal :=
  match s.contexts[i]? with
  | none => .clear
  | some c => c.signal s.board s.now

end Session

end QueryPlan
