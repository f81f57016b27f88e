import QueryPlan.Plan.Event
import QueryPlan.Run.Loop

/-!
# What a run answers

A run over a node's results comes in five flavours: `each` and `eachTagged` hand every
result or its bindings to a function, `all` collects results, `count` counts them and
`first` takes one.  A run that an error stopped reports the error and never a partial
answer.

Every run leaves one event: how many results it visited, and the error if there was
one.  The node is borrowed: a run never releases it.

Turns are fuel here as in `Loop.halt?`, and an answer of `none` says that there were too
few.
-/

namespace QueryPlan

/-- What a run needs besides the node: options, and a look at its context. -/
structure Run (ω : Type) where
  /-- The options. -/
  options : RunOptions
  /-- What the context shows. -/
  look : ω → Signal × ω

/-- What a run leaves behind. -/
structure Report (σ ω β : Type) where
  /-- The node. -/
  it : σ
  /-- The world. -/
  world : ω
  /-- The answer, or the error that stopped the run. -/
  outcome : Except QueryError β
  /-- The line in the log. -/
  event : Event

namespace Report

variable {σ ω : Type}

/-- The report on the end of a run over the node with the given identity. -/
def ofHalt (uid : Uid) (h : Halt σ ω) : Report σ ω Nat :=
  match h.err with
  | none => ⟨h.it, h.world, .ok h.count, .finished uid h.count⟩
  | some e => ⟨h.it, h.world, .error e, .stopped uid h.count e⟩

/-- The same report with another world, and with another answer in place of the number of
results; both are read off the world. -/
def reading {ω' β : Type} (world : ω → ω') (answer : ω → β) (p : Report σ ω Nat) :
    Report σ ω' β :=
  ⟨p.it, world p.world, p.outcome.map fun _ => answer p.world, p.event⟩

end Report

namespace Run

variable {σ α ω : Type} [Operator σ α]

/-! ## Options -/

/-- A run with the usual options. -/
def new (look : ω → Signal × ω) : Run ω := ⟨.new, look⟩

/-- The run with other options. -/
def withOptions (r : Run ω) (options : RunOptions) : Run ω := { r with options }

/-- The run with a limit. -/
def withLimit (r : Run ω) (limit : Nat) : Run ω :=
  { r with options := r.options.withLimit limit }

/-- The run with every way of reaching a result visited, or not. -/
def withPaths (r : Run ω) (paths : Bool) : Run ω :=
  { r with options := r.options.withPaths paths }

/-! ## Running -/

/-- Runs over the node; the answer is the number of results visited. -/
def visiting (r : Run ω) (visit : σ → ω → ω) (turns : Nat) (it : σ) (w : ω) :
    Option (Report σ ω Nat) :=
  (Loop.halt? ⟨r.options, r.look, visit⟩ turns .results it w 0).map
    (Report.ofHalt (Operator.uid it))

/-- The run in a world that also holds what has been gathered. -/
def gathering (r : Run ω) (β : Type) : Run (ω × β) :=
  ⟨r.options, fun (w, b) => let (s, w) := r.look w; (s, (w, b))⟩

/-- Visits the current result, if there is one. -/
def onResult (f : α → ω → ω) (it : σ) (w : ω) : ω :=
  match Operator.result it with
  | none => w
  | some x => f x w

/-- Visits the current bindings, in a map of their own. -/
def onTags (f : Bindings α → ω → ω) (it : σ) (w : ω) : ω :=
  f (Operator.publish it .empty) w

/-! ## The five flavours -/

/-- Hands every result to a function. -/
def each (r : Run ω) (f : α → ω → ω) (turns : Nat) (it : σ) (w : ω) :
    Option (Report σ ω Unit) :=
  (r.visiting (onResult f) turns it w).map (Report.reading id fun _ => ())

/-- Hands the bindings of every result to a function. -/
def eachTagged (r : Run ω) (f : Bindings α → ω → ω) (turns : Nat) (it : σ) (w : ω) :
    Option (Report σ ω Unit) :=
  (r.visiting (onTags f) turns it w).map (Report.reading id fun _ => ())

/-- Counts the results. -/
def count (r : Run ω) (turns : Nat) (it : σ) (w : ω) : Option (Report σ ω Nat) :=
  r.visiting (fun _ w => w) turns it w

/-- Collects the results. -/
def all (r : Run ω) (turns : Nat) (it : σ) (w : ω) : Option (Report σ ω (List α)) :=
  ((r.gathering (List α)).visiting (onResult fun x (w, xs) => (w, xs ++ [x])) turns it
    (w, [])).map (Report.reading Prod.fst Prod.snd)

/-- The limit of a run that wants one result; a limit of zero still applies. -/
def limitOfFirst (limit : Option Nat) : Nat := min (limit.getD 1) 1

/-- Takes the first result. -/
def first (r : Run ω) (turns : Nat) (it : σ) (w : ω) : Option (Report σ ω (Option α)) :=
  (((r.withLimit (limitOfFirst r.options.limit)).gathering (Option α)).visiting
    (onResult fun x (w, _) => (w, some x)) turns it (w, none)).map
    (Report.reading Prod.fst Prod.snd)

end Run

end QueryPlan
