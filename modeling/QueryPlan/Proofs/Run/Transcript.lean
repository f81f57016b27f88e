import QueryPlan.Proofs.Run.History

/-!
# Transcripts

The questions that are put to a node one after the other, with what the node answers.  A
`Question` is a request, for what it returns, or a look at one of the node's views.

* `Question.exists_of_mem_transcript` — every answer is that of the node as the questions
  before left it.
* `Operator.Hides` — when questions of one kind cannot be told from the answers to the others:
  what has to be shown for a single question.
* `Operator.Hides.transcript_filter` — **then leaving all of them out changes no other answer.**
-/

namespace QueryPlan

/-- Something that is asked of a node for its answer. -/
inductive Question (α : Type) where
  /-- A request, for what it returns. -/
  | of (q : Request α)
  /-- The current result. -/
  | result
  /-- The node's bindings, written over these. -/
  | bindings (dst : Bindings α)
  /-- Where the cursor stands. -/
  | state
  /-- The error that stopped the node. -/
  | err
  /-- How many results there are. -/
  | size

/-- What a node answers. -/
inductive Answer (α : Type) where
  /-- Nothing. -/
  | silence
  /-- Yes or no. -/
  | word (yes : Bool)
  /-- How a release went. -/
  | release (r : Except QueryError Unit)
  /-- The current result. -/
  | result (x : Option α)
  /-- Bindings. -/
  | bindings (b : Bindings α)
  /-- Where the cursor stands. -/
  | state (s : CursorState)
  /-- The error that stopped the node. -/
  | err (e : Option QueryError)
  /-- How many results there are. -/
  | size (n : Size)

/-- What a request returns. -/
def Request.answer {σ α : Type} [Operator σ α] (q : Request α) (it : σ) : Answer α :=
  match q with
  | .next s => .word (Operator.next s it).1
  | .nextPath s => .word (Operator.nextPath s it).1
  | .contains s x => .word (Operator.contains s x it).1
  | .close => .release (Operator.close it).1
  | .rewind | .read => .silence

namespace Question

variable {σ α : Type}

/-- The request that a question comes to. -/
def request : Question α → Request α
  | .of q => q
  | _ => .read

/-- Is the question a membership test? -/
def isTest : Question α → Bool
  | .of (.contains _ _) => true
  | _ => false

variable [Operator σ α]

/-- What the node answers. -/
def answer (q : Question α) (it : σ) : Answer α :=
  match q with
  | .of q => q.answer it
  | .result => .result (Operator.result it)
  | .bindings dst => .bindings (Operator.publish it dst)
  | .state => .state (Operator.state it)
  | .err => .err (Operator.err it)
  | .size => .size (Operator.size it)

/-- The questions put to a node one after the other, with its answers. -/
def transcript : List (Question α) → σ → List (Question α × Answer α)
  | [], _ => []
  | q :: qs, it => (q, q.answer it) :: transcript qs (q.request.after it)

theorem transcript_cons (q : Question α) (qs : List (Question α)) (it : σ) :
    transcript (q :: qs) it = (q, q.answer it) :: transcript qs (q.request.after it) := rfl

/-- **Every answer is that of the node as the questions before left it.** -/
theorem exists_of_mem_transcript {q : Question α} {a : Answer α} {qs : List (Question α)} :
    ∀ {it : σ}, (q, a) ∈ transcript qs it →
      ∃ before after, qs = before ++ q :: after ∧
        a = q.answer (Request.afterAll (before.map request) it) := by
  induction qs with
  | nil =>
    intro it h
    cases h
  | cons q' qs ih =>
    intro it h
    rw [transcript_cons] at h
    rcases List.mem_cons.1 h with h | h
    · obtain ⟨rfl, rfl⟩ := Prod.mk.inj h
      exact ⟨[], qs, rfl, rfl⟩
    · obtain ⟨before, after, rfl, ha⟩ := ih h
      exact ⟨q' :: before, after, rfl, ha⟩

end Question

/-! ## Questions that do not show -/

namespace Operator

variable {σ α : Type} [Operator σ α]

/-- When hidden questions do not show in the answers to the others, as long as every question is
an allowed one: there is a likeness between states of the node that a hidden question put to
one of two alike nodes keeps, and that any other question keeps when it is put to both, which
then give the same answer. -/
structure Hides (alike : σ → σ → Prop) (allowed : Question α → Prop)
    (hidden : Question α → Bool) : Prop where
  /-- A hidden question put to the first alone leaves the two alike. -/
  skip {it it' : σ} (h : alike it it') {q : Question α} (hq : allowed q)
    (hhidden : hidden q = true) : alike (q.request.after it) it'
  /-- Both give the same answer to any other question. -/
  answer {it it' : σ} (h : alike it it') {q : Question α} (hq : allowed q)
    (hshown : hidden q = false) : q.answer it = q.answer it'
  /-- Such a question put to both leaves them alike. -/
  after {it it' : σ} (h : alike it it') {q : Question α} (hq : allowed q)
    (hshown : hidden q = false) : alike (q.request.after it) (q.request.after it')

/-- **Hidden questions can be left out.**  Of two alike nodes the one is put some questions and
the other the same ones but for the hidden; the answers to the questions that are put to both
are the same. -/
theorem Hides.transcript_filter {alike : σ → σ → Prop} {allowed : Question α → Prop}
    {hidden : Question α → Bool} (h : Hides alike allowed hidden) {qs : List (Question α)} :
    ∀ {it it' : σ}, alike it it' → (∀ q ∈ qs, allowed q) →
      (Question.transcript qs it).filter (fun entry => !hidden entry.1) =
        Question.transcript (qs.filter fun q => !hidden q) it' := by
  induction qs with
  | nil => exact fun _ _ => rfl
  | cons q qs ih =>
    intro it it' halike hqs
    have hq := hqs q List.mem_cons_self
    have hrest := fun q' hq' => hqs q' (List.mem_cons_of_mem _ hq')
    rw [Question.transcript_cons]
    cases hhidden : hidden q with
    | true =>
      rw [List.filter_cons_of_neg (by simp [hhidden]), List.filter_cons_of_neg (by simp [hhidden])]
      exact ih (h.skip halike hq hhidden) hrest
    | false =>
      rw [List.filter_cons_of_pos (by simp [hhidden]), List.filter_cons_of_pos (by simp [hhidden]),
        Question.transcript_cons, h.answer halike hq hhidden,
        ih (h.after halike hq hhidden) hrest]

end Operator

end QueryPlan
