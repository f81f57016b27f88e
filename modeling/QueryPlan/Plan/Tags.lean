import QueryPlan.Plan.Bindings

/-!
# The names a node publishes under

A node of a plan makes its results known under names, its tags.  `Tags` holds the
names that are bound to the node's current result, and bindings of their own that do
not depend on where the cursor stands.  Both keep the order in which names were
first added.

* `Tags.publish` — writes a node's bindings over a map: the fixed ones first, then the
  current result under each of its names.
* `Tags.merge` — takes over another node's names, for a node that replaces it.
-/

namespace QueryPlan

/-- The names a node publishes under. -/
structure Tags (α : Type) where
  /-- The names bound to the current result, each once. -/
  live : List String
  /-- The bindings that do not depend on the cursor. -/
  fixed : Bindings α
  deriving BEq, Repr

namespace Tags

variable {α : Type}

/-- No names. -/
def empty : Tags α := ⟨[], .empty⟩

/-- Adds a name to a list that holds each name once. -/
def insertName (names : List String) (name : String) : List String :=
  if name ∈ names then names else names ++ [name]

/-- Adds a name for the current result. -/
def add (t : Tags α) (name : String) : Tags α := { t with live := insertName t.live name }

/-- Adds a fixed binding, in place of an earlier one of that name. -/
def fix (t : Tags α) (name : String) (x : α) : Tags α :=
  { t with fixed := t.fixed.insert name x }

/-- Are there no names of either kind? -/
def isEmpty (t : Tags α) : Bool := t.live.isEmpty && t.fixed.entries.isEmpty

/-- Adds all names of another node, in its order. -/
def merge (t other : Tags α) : Tags α :=
  ⟨other.live.foldl insertName t.live, t.fixed.overlay other.fixed⟩

/-- Writes the bindings for the current result, if there is one, over `dst`. -/
def publish (t : Tags α) (current : Option α) (dst : Bindings α) : Bindings α :=
  let dst := dst.overlay t.fixed
  match current with
  | none => dst
  | some x => t.live.foldl (fun dst name => dst.insert name x) dst

end Tags

/-! ## The tags of several nodes -/

/-- A step in the life of the tags of several numbered nodes. -/
inductive TagStep (α : Type) where
  /-- The node `target` gets a name for its current result. -/
  | add (target : Nat) (name : String)
  /-- The node `target` gets a fixed binding. -/
  | fix (target : Nat) (name : String) (x : α)
  /-- The node `target` takes over the names of the node `source`. -/
  | merge (target source : Nat)
  /-- The node `target` has the names of the node `source` from now on, and no others. -/
  | become (target source : Nat)

namespace TagStep

variable {α : Type}

/-- The tags of a node; one that does not exist has none. -/
def tagsAt (bank : List (Tags α)) (i : Nat) : Tags α := bank[i]?.getD .empty

/-- What a step makes of the tags. -/
def apply (bank : List (Tags α)) : TagStep α → List (Tags α)
  | .add target name => bank.modify target (·.add name)
  | .fix target name x => bank.modify target (·.fix name x)
  | .merge target source => bank.modify target (·.merge (tagsAt bank source))
  | .become target source => bank.set target (tagsAt bank source)

end TagStep

end QueryPlan
