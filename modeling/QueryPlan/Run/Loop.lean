import QueryPlan.Plan.Operator
import QueryPlan.Run.Options

/-!
# The loop of a run

A run asks a node for one result after the other and, if it is told to, for every
way of reaching each of them, until the limit is reached, the node says no or the
context fires.  `Loop.halt?` takes one turn after the other; in each the limit is
looked at first, then the context, and only then is the node asked to move.

What is outside the node is a world of type `ω`: looking at the context may change
it, since time passes, and so does visiting a result.  Nothing is assumed about the
node, so a run may go on for ever, and the number of turns is fuel; `turnsFor` is
enough of it for a node that keeps to what it says about its pending rows.
-/

namespace QueryPlan

/-- What a run is made of: options, a look at the context, and a visit to a result. -/
structure Loop (σ ω : Type) where
  /-- The options. -/
  options : RunOptions
  /-- What the context shows. -/
  look : ω → Signal × ω
  /-- What is done at a result. -/
  visit : σ → ω → ω

/-- Which cursor moves next. -/
inductive Phase where
  /-- The one over results. -/
  | results
  /-- The one over the ways of reaching the current result. -/
  | paths
  deriving DecidableEq, Repr

/-- The end of a run. -/
structure Halt (σ ω : Type) where
  /-- The node. -/
  it : σ
  /-- The world. -/
  world : ω
  /-- The number of results visited. -/
  count : Nat
  /-- The error that the run reports. -/
  err : Option QueryError

namespace Loop

variable {σ α ω : Type} [Operator σ α]

/-- The end of a run that nothing interrupted: the node says whether it was stopped. -/
def settle (it : σ) (w : ω) (count : Nat) : Halt σ ω := ⟨it, w, count, Operator.err it⟩

/-- What is to be moved after a result. -/
def afterResult (l : Loop σ ω) : Phase := if l.options.paths then .paths else .results

/-- Takes turns until the run ends; `none` if there is not enough fuel. -/
def halt? (l : Loop σ ω) : Nat → Phase → σ → ω → Nat → Option (Halt σ ω)
  | 0, _, _, _, _ => none
  | turns + 1, phase, it, w, count =>
    if l.options.reached count then some (settle it w count)
    else
      let (seen, w) := l.look w
      match seen.error? with
      | some e => some ⟨it, w, count, some e⟩
      | none =>
        let (s, w) := l.look w
        match phase with
        | .results =>
          match Operator.next s it with
          | (false, it) => some (settle it w count)
          | (true, it) => halt? l turns l.afterResult it (l.visit it w) (count + 1)
        | .paths =>
          match Operator.nextPath s it with
          | (false, it) => halt? l turns .results it w count
          | (true, it) => halt? l turns .paths it (l.visit it w) (count + 1)

end Loop

/-- The turns for rows with so many paths: one for the step to a row and one for each of its
paths. -/
def turnsOf (rows : List Nat) : Nat := rows.foldr (fun paths turns => paths + 1 + turns) 0

/-- Turns enough for a run over a node that keeps to what it says about its pending rows: those
for the rows, one for the end of the rows, and one to stop. -/
def turnsFor {σ α : Type} [Operator σ α] (it : σ) : Nat := turnsOf (Operator.pending it) + 2

end QueryPlan
