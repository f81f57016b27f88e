import QueryPlan.Proofs.Tree.Results

/-!
# Moving under any context

What the operations of a tree's cursors can come to, wherever the cursors stand and whatever
the context shows: the ways in which a call on a leaf can end, and those in which the search
of an intersection can.  Later proofs split along these and do not open the operations.

* `RowSet.next_ends`, `RowSet.nextPath_ends`, `RowSet.contains_ends` — calls on a leaf.
* `Cursor.search_ends` — the search of an intersection, with what every round of it keeps.
* `Cursor.next_passes` — a step that finds a result uses up a pending row, so the fuel of a
  search is always enough: `Cursor.next_probe_ends`.
* `Run.exists_halt` — **every run over a tree ends**, whatever its context does.
-/

namespace QueryPlan

theorem Signal.eq_clear_or_error? (s : Signal) : s = .clear ∨ ∃ e, s.error? = some e := by
  cases s with
  | clear => exact Or.inl rfl
  | cancelled => exact Or.inr ⟨.cancelled, rfl⟩
  | expired => exact Or.inr ⟨.deadlineExceeded, rfl⟩

/-! ## Calls on a leaf -/

namespace RowCursor

/-- The cursor after a step that found no row. -/
def spent (c : RowCursor) : RowCursor :=
  { c with nextCalls := c.nextCalls + 1, current := none, progress := c.progress.exhaust }

/-- The cursor after a step to a row. -/
def onto (c : RowCursor) : RowCursor :=
  { c with
    nextCalls := c.nextCalls + 1
    current := some c.index
    index := c.index + 1
    path := 0
    progress := c.progress.position }

/-- The cursor after a step to a witness. -/
def along (c : RowCursor) : RowCursor := { c with path := c.path + 1 }

/-- The cursor after a membership test that was not stopped. -/
def tested (c : RowCursor) (yes : Bool) : RowCursor :=
  { c with
    containsCalls := c.containsCalls + 1
    containsHits := if yes then c.containsHits + 1 else c.containsHits }

end RowCursor

namespace RowSet

variable {α : Type}

/-- The ways in which a step of a leaf can end. -/
inductive NextEnds (leaf : RowSet α) (s : Signal) (c : RowCursor) : Bool × RowCursor → Prop where
  /-- The leaf had come to its end before. -/
  | terminal (ht : c.progress.state.isTerminal = true) : NextEnds leaf s c (false, c)
  /-- The context stopped it. -/
  | fired {e : QueryError} (ht : c.progress.state.isTerminal = false) (he : s.error? = some e) :
      NextEnds leaf s c (false, c.fail e)
  /-- It ran out of rows. -/
  | spent (ht : c.progress.state.isTerminal = false) (hs : s = .clear)
      (hi : leaf.rows.length ≤ c.index) : NextEnds leaf s c (false, c.spent)
  /-- It moved to a row. -/
  | moved (ht : c.progress.state.isTerminal = false) (hs : s = .clear)
      (hi : c.index < leaf.rows.length) : NextEnds leaf s c (true, c.onto)

theorem next_ends (leaf : RowSet α) (s : Signal) (c : RowCursor) :
    leaf.NextEnds s c (leaf.next s c) := by
  unfold next
  by_cases ht : c.progress.state.isTerminal = true
  · rw [if_pos ht]
    exact .terminal ht
  · have ht' : c.progress.state.isTerminal = false := by simpa using ht
    rw [if_neg ht]
    rcases s.eq_clear_or_error? with rfl | ⟨e, he⟩
    · rw [show c.stop .clear = none from rfl]
      by_cases hi : c.index < leaf.rows.length
      · dsimp only
        rw [if_pos hi]
        exact .moved ht' rfl hi
      · dsimp only
        rw [if_neg hi]
        exact .spent ht' rfl (Nat.le_of_not_lt hi)
    · rw [show c.stop s = some (c.fail e) by rw [RowCursor.stop, he]; rfl]
      exact .fired ht' he

/-- The ways in which a path step of a leaf can end. -/
inductive NextPathEnds (leaf : RowSet α) (s : Signal) (c : RowCursor) :
    Bool × RowCursor → Prop where
  /-- The leaf stands on no row. -/
  | off (hr : leaf.currentRow c = none) : NextPathEnds leaf s c (false, c)
  /-- The context stopped it. -/
  | fired {e : QueryError} {row : Row α} (hr : leaf.currentRow c = some row)
      (he : s.error? = some e) : NextPathEnds leaf s c (false, c.fail e)
  /-- The row has no further witness. -/
  | spent {row : Row α} (hr : leaf.currentRow c = some row) (hs : s = .clear)
      (hp : row.witnesses.length ≤ c.path + 1) : NextPathEnds leaf s c (false, c)
  /-- It moved to a witness. -/
  | moved {row : Row α} (hr : leaf.currentRow c = some row) (hs : s = .clear)
      (hp : c.path + 1 < row.witnesses.length) : NextPathEnds leaf s c (true, c.along)

theorem nextPath_ends (leaf : RowSet α) (s : Signal) (c : RowCursor) :
    leaf.NextPathEnds s c (leaf.nextPath s c) := by
  cases hr : leaf.currentRow c with
  | none =>
    rw [leaf.nextPath_of_none hr]
    exact .off hr
  | some row =>
    rcases s.eq_clear_or_error? with rfl | ⟨e, he⟩
    · rw [leaf.nextPath_clear hr]
      by_cases hp : c.path + 1 < row.witnesses.length
      · rw [if_pos hp]
        exact .moved hr rfl hp
      · rw [if_neg hp]
        exact .spent hr rfl (Nat.le_of_not_lt hp)
    · unfold nextPath
      rw [hr, show c.stop s = some (c.fail e) by rw [RowCursor.stop, he]; rfl]
      exact .fired hr he

/-- The ways in which a membership test in a leaf can end. -/
inductive ContainsEnds (s : Signal) (c : RowCursor) : Bool × RowCursor → Prop where
  /-- The context stopped the leaf. -/
  | fired {e : QueryError} (he : s.error? = some e) : ContainsEnds s c (false, c.fail e)
  /-- The candidate was looked for. -/
  | tested (yes : Bool) (hs : s = .clear) : ContainsEnds s c (yes, c.tested yes)

theorem contains_ends [BEq α] (leaf : RowSet α) (s : Signal) (x : α) (c : RowCursor) :
    ContainsEnds s c (leaf.contains s x c) := by
  unfold contains
  rcases s.eq_clear_or_error? with rfl | ⟨e, he⟩
  · rw [show c.stop .clear = none from rfl]
    dsimp only
    split
    · exact .tested true rfl
    · exact .tested false rfl
  · rw [show c.stop s = some (c.fail e) by rw [RowCursor.stop, he]; rfl]
    exact .fired he

end RowSet

namespace Cursor

variable {α : Type} [Item α]

/-! ## The search of an intersection -/

section Search

variable {p : BasicPlan α} {os : List (BasicPlan α)} {step : Cursor p → Bool × Cursor p}
  {s : Signal} {P : Cursor p → Prop} {Q : Cursors os → Prop}

/-- The ways in which a search can end, by what its last round did: `P` and `Q` held of the
children before that round. -/
inductive SearchEnds (step : Cursor p → Bool × Cursor p) (s : Signal) (P : Cursor p → Prop)
    (Q : Cursors os → Prop) : Bool → Option QueryError → Cursor p → Cursors os → Prop where
  /-- The first child had no further result. -/
  | spent {c c' : Cursor p} {cs : Cursors os} (hc : P c) (hcs : Q cs)
      (hstep : step c = (false, c')) :
      SearchEnds step s P Q false ((err c').orElse fun _ => firstErr cs) c' cs
  /-- The others had the result that the first child came to. -/
  | found {c c' : Cursor p} {cs cs' : Cursors os} {x : α} (hc : P c) (hcs : Q cs)
      (hstep : step c = (true, c')) (hx : result c' = some x)
      (htest : containsAll s x cs = (true, cs')) : SearchEnds step s P Q true none c' cs'
  /-- One of the others did not have it and reports an error. -/
  | fault {c c' : Cursor p} {cs cs' : Cursors os} {x : α} {e : QueryError} (hc : P c)
      (hcs : Q cs) (hstep : step c = (true, c')) (hx : result c' = some x)
      (htest : containsAll s x cs = (false, cs')) (he : firstErr cs' = some e) :
      SearchEnds step s P Q false (some e) c' cs'

/-- **What a search comes to**, if it comes to an end: what steps of the first child and tests
in the others keep holds before its last round. -/
theorem search_ends (hP : ∀ c, P c → P (step c).2)
    (hQ : ∀ x cs, Q cs → Q (containsAll s x cs).2) :
    ∀ {rounds : Nat} {c c' : Cursor p} {cs cs' : Cursors os} {yes : Bool}
      {e : Option QueryError}, P c → Q cs →
      search step s rounds c cs = some (yes, e, c', cs') → SearchEnds step s P Q yes e c' cs' := by
  intro rounds
  induction rounds with
  | zero =>
    intro c c' cs cs' yes e _ _ h
    cases h
  | succ n ih =>
    intro c c' cs cs' yes e hc hcs h
    rw [search_succ] at h
    have hc₁ := hP c hc
    rcases hstep : step c with ⟨_ | _, c₁⟩
    · rw [hstep] at h
      cases h
      exact .spent hc hcs hstep
    · rw [hstep] at h hc₁
      dsimp only at h hc₁
      cases hx : result c₁ with
      | none =>
        rw [hx] at h
        exact ih hc₁ hcs h
      | some x =>
        rw [hx] at h
        dsimp only at h
        have hcs₁ := hQ x cs hcs
        rcases htest : containsAll s x cs with ⟨_ | _, cs₁⟩
        · rw [htest] at h hcs₁
          dsimp only at h hcs₁
          cases he : firstErr cs₁ with
          | none =>
            rw [he] at h
            exact ih hc₁ hcs₁ h
          | some e₁ =>
            rw [he] at h
            cases h
            exact .fault hc hcs hstep hx htest he
        · rw [htest] at h
          cases h
          exact .found hc hcs hstep hx htest

/-- A search ends if every step that finds a result uses up a pending row. -/
theorem exists_search
    (hpass : ∀ c c', step c = (true, c') → (pending c').length < (pending c).length) :
    ∀ {rounds : Nat} {c : Cursor p} {cs : Cursors os}, (pending c).length < rounds →
      ∃ yes e c' cs', search step s rounds c cs = some (yes, e, c', cs') := by
  intro rounds
  induction rounds with
  | zero =>
    intro c cs h
    omega
  | succ n ih =>
    intro c cs hlt
    rw [search_succ]
    rcases hstep : step c with ⟨_ | _, c₁⟩
    · exact ⟨_, _, _, _, rfl⟩
    · have hless := hpass c c₁ hstep
      have hlt₁ : (pending c₁).length < n := by omega
      dsimp only
      cases result c₁ with
      | none => exact ih hlt₁
      | some x =>
        dsimp only
        rcases containsAll s x cs with ⟨_ | _, cs₁⟩
        · dsimp only
          cases firstErr cs₁ with
          | none => exact ih hlt₁
          | some e => exact ⟨_, _, _, _, rfl⟩
        · exact ⟨_, _, _, _, rfl⟩

end Search

/-! ## The step of an intersection -/

section Probe

variable {uid : Uid} {p : BasicPlan α} {os : List (BasicPlan α)} {s : Signal}

theorem next_probe_fired {e : QueryError} (he : s.error? = some e) (c : Cursor p)
    (cs : Cursors os) : next s (.probe none c cs : Cursor (.probe uid p os)) =
      (false, .probe (some e) c cs) := by
  cases s with
  | clear => cases he
  | cancelled =>
    cases he
    rfl
  | expired =>
    cases he
    rfl

/-- The ways in which a step of an intersection can end. -/
inductive ProbeEnds (s : Signal) (P : Cursor p → Prop) (Q : Cursors os → Prop)
    (c : Cursor p) (cs : Cursors os) :
    Option QueryError → Bool × Cursor (.probe uid p os : BasicPlan α) → Prop where
  /-- An error had stopped it before. -/
  | stopped (e : QueryError) : ProbeEnds s P Q c cs (some e) (false, .probe (some e) c cs)
  /-- The context stopped it. -/
  | fired {e : QueryError} (he : s.error? = some e) :
      ProbeEnds s P Q c cs none (false, .probe (some e) c cs)
  /-- It searched. -/
  | searched {yes : Bool} {e : Option QueryError} {c' : Cursor p} {cs' : Cursors os}
      (hs : s = .clear) (h : SearchEnds (next .clear) .clear P Q yes e c' cs') :
      ProbeEnds s P Q c cs none (yes, .probe e c' cs')

theorem next_probe_ends_of
    (hpass : ∀ c c' : Cursor p, next .clear c = (true, c') →
      (pending c').length < (pending c).length)
    {P : Cursor p → Prop} {Q : Cursors os → Prop} (hP : ∀ c, P c → P (next .clear c).2)
    (hQ : ∀ x cs, Q cs → Q (containsAll .clear x cs).2) {c : Cursor p} {cs : Cursors os}
    (hc : P c) (hcs : Q cs) (e : Option QueryError) (s : Signal) :
    ProbeEnds s P Q c cs e (next s (.probe e c cs : Cursor (.probe uid p os))) := by
  cases e with
  | some e =>
    rw [next_probe_some]
    exact .stopped e
  | none =>
    rcases s.eq_clear_or_error? with rfl | ⟨e, he⟩
    · obtain ⟨yes, e, c', cs', hsearch⟩ : ∃ yes e c' cs',
          search (next .clear) .clear ((pending c).length + 1) c cs = some (yes, e, c', cs') :=
        exists_search hpass (Nat.lt_succ_self _)
      rw [next_probe_clear, hsearch]
      exact .searched rfl (search_ends hP hQ hc hcs hsearch)
    · rw [next_probe_fired he]
      exact .fired he

end Probe

/-! ## Pending rows -/

/-- What a step does to the pending rows: it takes some away in front, and if it finds a
result, the last one taken has more ways of being reached than are left. -/
def Passes {p : BasicPlan α} (c : Cursor p) (answer : Bool × Cursor p) : Prop :=
  pending answer.2 <:+ pending c ∧
    (answer.1 = true → ∃ ways, ways :: pending answer.2 <:+ pending c ∧ waysLeft answer.2 < ways)

omit [Item α] in
theorem length_pending_of_passes {p : BasicPlan α} {c c' : Cursor p} (h : Passes c (true, c')) :
    (pending c').length < (pending c).length := by
  obtain ⟨ways, hsuffix, -⟩ := h.2 rfl
  exact hsuffix.length_le

theorem fixed_passes (uid : Uid) (leaf : RowSet α) (s : Signal) (c : RowCursor) :
    Passes (.fixed c : Cursor (.fixed uid leaf)) (next s (.fixed c)) := by
  have hends := leaf.next_ends s c
  rw [next_fixed]
  generalize leaf.next s c = answer at hends ⊢
  cases hends with
  | terminal _ => exact ⟨List.suffix_rfl, fun h => by cases h⟩
  | fired _ _ => exact ⟨List.suffix_rfl, fun h => by cases h⟩
  | spent _ _ _ => exact ⟨List.suffix_rfl, fun h => by cases h⟩
  | moved _ _ hi =>
    have hcur : leaf.currentRow c.onto = some leaf.rows[c.index] :=
      (List.getElem?_eq_getElem hi : leaf.rows[c.index]? = _)
    have hpending : pending (.fixed c : Cursor (.fixed uid leaf : BasicPlan α)) =
        leaf.rows[c.index].paths ::
          pending (.fixed c.onto : Cursor (.fixed uid leaf : BasicPlan α)) := by
      show (leaf.rows.drop c.index).map Row.paths = _
      rw [List.drop_eq_getElem_cons hi]
      rfl
    have hways : waysLeft (.fixed c.onto : Cursor (.fixed uid leaf : BasicPlan α)) <
        leaf.rows[c.index].paths := by
      have hpath : c.onto.path = 0 := rfl
      rw [waysLeft_fixed hcur, Row.paths]
      omega
    unfold Passes
    rw [hpending]
    exact ⟨List.suffix_cons _ _, fun _ => ⟨_, List.suffix_rfl, hways⟩⟩

/-- **A step takes pending rows away in front**, and at least one if it finds a result. -/
theorem next_passes {p : BasicPlan α} (s : Signal) : ∀ c : Cursor p, Passes c (next s c) := by
  induction p using BasicPlan.induct generalizing s with
  | null uid =>
    intro c
    cases c
    exact ⟨List.suffix_rfl, fun h => by cases h⟩
  | error uid e =>
    intro c
    cases c
    exact ⟨List.suffix_rfl, fun h => by cases h⟩
  | fixed uid leaf =>
    intro c
    cases c with
    | fixed c => exact fixed_passes uid leaf s c
  | probe uid p os ih _ =>
    intro c
    cases c with
    | probe e c cs =>
      have hpass : ∀ c c' : Cursor p, next .clear c = (true, c') →
          (pending c').length < (pending c).length := fun c c' h =>
        length_pending_of_passes (h ▸ ih .clear c)
      have hends : ProbeEnds s (fun c' => pending c' <:+ pending c) (fun _ => True) c cs e
          (next s (.probe e c cs : Cursor (.probe uid p os))) :=
        next_probe_ends_of hpass (fun c' h => (ih .clear c').1.trans h) (fun _ _ _ => trivial)
          List.suffix_rfl trivial e s
      generalize next s (.probe e c cs : Cursor (.probe uid p os)) = answer at hends ⊢
      cases hends with
      | stopped e => exact ⟨List.suffix_rfl, fun h => by cases h⟩
      | fired _ => exact ⟨List.suffix_rfl, fun h => by cases h⟩
      | searched _ h =>
        cases h with
        | @spent c₀ _ _ hc _ hstep =>
          have hc' := (ih .clear c₀).1
          rw [hstep] at hc'
          exact ⟨hc'.trans hc, fun h => by cases h⟩
        | @found c₀ _ _ _ _ hc _ hstep _ _ =>
          obtain ⟨hc', hways⟩ := ih .clear c₀
          rw [hstep] at hc' hways
          obtain ⟨ways, hsuffix, hlt⟩ := hways rfl
          exact ⟨hc'.trans hc, fun _ => ⟨ways, hsuffix.trans hc, hlt⟩⟩
        | @fault c₀ _ _ _ _ _ hc _ hstep _ _ _ =>
          have hc' := (ih .clear c₀).1
          rw [hstep] at hc'
          exact ⟨hc'.trans hc, fun h => by cases h⟩

/-- **What a step of an intersection comes to**, with what steps of its first child and tests
in the others keep. -/
theorem next_probe_ends {uid : Uid} {p : BasicPlan α} {os : List (BasicPlan α)}
    {P : Cursor p → Prop} {Q : Cursors os → Prop} (hP : ∀ c, P c → P (next .clear c).2)
    (hQ : ∀ x cs, Q cs → Q (containsAll .clear x cs).2) {c : Cursor p} {cs : Cursors os}
    (hc : P c) (hcs : Q cs) (e : Option QueryError) (s : Signal) :
    ProbeEnds s P Q c cs e (next s (.probe e c cs : Cursor (.probe uid p os))) :=
  next_probe_ends_of (fun c _ h => length_pending_of_passes (h ▸ next_passes .clear c)) hP hQ hc
    hcs e s

/-- What a step of an intersection comes to, whatever its children are like. -/
theorem next_probe_ends_anyhow (uid : Uid) {p : BasicPlan α} {os : List (BasicPlan α)}
    (e : Option QueryError) (c : Cursor p) (cs : Cursors os) (s : Signal) :
    ProbeEnds s (fun _ => True) (fun _ => True) c cs e
      (next s (.probe e c cs : Cursor (.probe uid p os))) :=
  next_probe_ends (fun _ _ => trivial) (fun _ _ _ => trivial) trivial trivial e s

omit [Item α] in
/-- A path step leaves the pending rows alone and takes one of the ways left if it finds one. -/
theorem nextPath_passes {p : BasicPlan α} (s : Signal) : ∀ c : Cursor p,
    pending (nextPath s c).2 = pending c ∧
      ((nextPath s c).1 = true → waysLeft (nextPath s c).2 < waysLeft c) := by
  induction p using BasicPlan.induct with
  | null uid =>
    intro c
    cases c
    exact ⟨rfl, fun h => by cases h⟩
  | error uid e =>
    intro c
    cases c
    exact ⟨rfl, fun h => by cases h⟩
  | fixed uid leaf =>
    intro c
    cases c with
    | fixed c =>
      have hends := leaf.nextPath_ends s c
      rw [nextPath_fixed]
      generalize leaf.nextPath s c = answer at hends ⊢
      cases hends with
      | off _ => exact ⟨rfl, fun h => by cases h⟩
      | fired _ _ => exact ⟨rfl, fun h => by cases h⟩
      | spent _ _ _ => exact ⟨rfl, fun h => by cases h⟩
      | @moved row hr _ hp =>
        have hr' : leaf.currentRow c.along = some row := hr
        refine ⟨rfl, fun _ => ?_⟩
        rw [waysLeft_fixed hr, waysLeft_fixed hr']
        have hpath : c.along.path = c.path + 1 := rfl
        omega
  | probe uid p os ih _ =>
    intro c
    cases c with
    | probe e c cs =>
      rw [nextPath_probe]
      exact ih c

end Cursor

/-! ## Every run ends -/

/-- The path steps that are made over rows with so many paths. -/
def pathsOf (rows : List Nat) : Nat := rows.foldr (fun paths n => paths + n) 0

theorem pathsOf_cons (paths : Nat) (rows : List Nat) :
    pathsOf (paths :: rows) = paths + pathsOf rows := rfl

theorem pathsOf_le_of_suffix {rows rows' : List Nat} (h : rows <:+ rows') :
    pathsOf rows ≤ pathsOf rows' := by
  obtain ⟨front, rfl⟩ := h
  induction front with
  | nil => exact Nat.le_refl _
  | cons paths front ih =>
    rw [List.cons_append, pathsOf_cons]
    omega

/-- A turn is a path step or the step to a row. -/
theorem turnsOf_eq (rows : List Nat) : turnsOf rows = pathsOf rows + rows.length := by
  induction rows with
  | nil => rfl
  | cons paths rows ih =>
    have hcons : turnsOf (paths :: rows) = paths + 1 + turnsOf rows := rfl
    rw [hcons, ih, pathsOf_cons, List.length_cons]
    omega

namespace Cursor

variable {α : Type} [Item α] {p : BasicPlan α} {c c' : Cursor p}

theorem length_pending_next {s : Signal} (h : next s c = (true, c')) :
    (pending c').length < (pending c).length :=
  length_pending_of_passes (h ▸ next_passes s c)

/-- The path steps that a run can still make. -/
def pathsLeft (phase : Phase) (c : Cursor p) : Nat :=
  match phase with
  | .results => pathsOf (pending c)
  | .paths => waysLeft c + 1 + pathsOf (pending c)

omit [Item α] in
theorem pathsLeft_results : pathsLeft .results c = pathsOf (pending c) := rfl

omit [Item α] in
theorem pathsLeft_paths : pathsLeft .paths c = waysLeft c + 1 + pathsOf (pending c) := rfl

/-- A step that finds a row pays for the path steps over it. -/
theorem pathsLeft_next {s : Signal} (h : next s c = (true, c')) (phase : Phase) :
    pathsLeft phase c' ≤ pathsLeft .results c := by
  have hpasses := next_passes s c
  rw [h] at hpasses
  obtain ⟨ways, hsuffix, hlt⟩ := hpasses.2 rfl
  have hle := pathsOf_le_of_suffix hsuffix
  rw [pathsOf_cons] at hle
  dsimp only at hlt hle
  cases phase with
  | results =>
    rw [pathsLeft_results, pathsLeft_results]
    omega
  | paths =>
    rw [pathsLeft_paths, pathsLeft_results]
    omega

omit [Item α] in
/-- A path step is one of those that were possible. -/
theorem pathsLeft_nextPath {s : Signal} {yes : Bool} (h : nextPath s c = (yes, c')) :
    pathsLeft (if yes then .paths else .results) c' < pathsLeft .paths c := by
  obtain ⟨hpending, hways⟩ := nextPath_passes s c
  rw [h] at hpending hways
  dsimp only at hpending hways
  cases yes with
  | true =>
    have hlt := hways rfl
    rw [if_pos rfl, pathsLeft_paths, pathsLeft_paths, hpending]
    omega
  | false =>
    rw [if_neg (by decide), pathsLeft_results, pathsLeft_paths, hpending]
    omega

/-- The turns that the pending rows can take. -/
def turnsLeft (phase : Phase) (c : Cursor p) : Nat :=
  match phase with
  | .results => turnsOf (pending c)
  | .paths => waysLeft c + 1 + turnsOf (pending c)

omit [Item α] in
theorem turnsLeft_eq (phase : Phase) (c : Cursor p) :
    turnsLeft phase c = pathsLeft phase c + (pending c).length := by
  cases phase with
  | results => exact turnsOf_eq _
  | paths =>
    rw [pathsLeft_paths]
    show waysLeft c + 1 + turnsOf (pending c) = _
    rw [turnsOf_eq]
    omega

theorem turnsLeft_next {s : Signal} (h : next s c = (true, c')) (phase : Phase) :
    turnsLeft phase c' < turnsLeft .results c := by
  have hpaths := pathsLeft_next h phase
  have hsteps := length_pending_next h
  rw [turnsLeft_eq, turnsLeft_eq]
  omega

omit [Item α] in
theorem turnsLeft_nextPath {s : Signal} {yes : Bool} (h : nextPath s c = (yes, c')) :
    turnsLeft (if yes then .paths else .results) c' < turnsLeft .paths c := by
  have hpaths := pathsLeft_nextPath h
  have hpending : pending c' = pending c := by
    have hpasses := (nextPath_passes s c).1
    rwa [h] at hpasses
  rw [turnsLeft_eq, turnsLeft_eq, hpending]
  omega

end Cursor

namespace Run

variable {α ω : Type} [Item α] {p : BasicPlan α}

/-- Whatever the context shows, a turn that goes on uses up turns. -/
theorem turnsLeft_of_turn {l : Loop (Cursor p) ω} {s s' : Stand (Cursor p) ω}
    (h : l.turn s = .go s') : s'.it.turnsLeft s'.phase < s.it.turnsLeft s.phase := by
  obtain ⟨phase, c, w, n⟩ := s
  obtain ⟨-, -, h⟩ := Loop.turn_eq_go h
  rcases ht : l.tried ⟨phase, c, w, n⟩ with ⟨yes, c'⟩
  rw [ht] at h
  rcases h with ⟨rfl, rfl⟩ | ⟨rfl, rfl, rfl⟩
  · cases phase with
    | results => exact Cursor.turnsLeft_next ht _
    | paths => exact Cursor.turnsLeft_nextPath ht
  · exact Cursor.turnsLeft_nextPath ht

/-- **Every run over a tree ends**, wherever the cursors stand and whatever the context does. -/
theorem exists_halt (l : Loop (Cursor p) ω) (c : Cursor p) (w : ω) {turns : Nat}
    (hturns : turnsFor c ≤ turns) : ∃ h, l.haltFrom? turns (.start c w) = some h := by
  have hfor : turnsFor c = turnsOf (Cursor.pending c) + 2 := rfl
  refine Loop.exists_haltFrom?_of_lt (fun s => s.it.turnsLeft s.phase)
    (fun _ _ _ h => turnsLeft_of_turn h) ?_
  show turnsOf (Cursor.pending c) < turns
  omega

/-- So does every watched run. -/
theorem exists_halt_watched (r : Run ω) (visit : Cursor p → ω → ω) (c : Cursor p) (w : ω)
    {turns : Nat} (hturns : turnsFor c ≤ turns) :
    ∃ h, (r.watched visit).haltFrom? turns (watchedStart c w) = some h := by
  obtain ⟨h, hh⟩ := exists_halt (r.loop visit) c w hturns
  have hmap := (r.watches visit).haltFrom?_map turns (watchedStart c w)
  obtain ⟨h', hh', -⟩ := Option.map_eq_some_iff.1 (hmap.symm.trans hh)
  exact ⟨h', hh'⟩

end Run

end QueryPlan
