import QueryPlan.Proofs.Tree.Results
import QueryPlan.Proofs.Tree.Requests

/-!
# The places where a run with paths stops

A run over a tree is a run over the rows of the leaf at the tip of the chain of first children.  It
passes over the rows that another child along the chain lacks, and told to visit every way of
reaching a result it stops at each of the others once for every witness, or once if there is none.

* `Plan.places` — the places where it stops, as numbers of rows and ways, in lexicographic order
  (`Plan.pairwise_places`, `Plan.mem_places`).
* `Cursor.next_tip`, `Cursor.nextPath_tip` — what a move does at the tip.
* `Cursor.placesToCome` — the places that are still to come; a move that succeeds leads to the
  first of them (`Cursor.placesToCome_next`, `Cursor.placesToCome_nextPath`).
-/

namespace QueryPlan

variable {α : Type}

/-- The first way of reaching a row, and the others. -/
theorem Row.range_paths (row : Row α) :
    List.range row.paths = 0 :: List.range' 1 (row.paths - 1) := by
  obtain ⟨n, hn⟩ := Nat.exists_eq_add_of_le (Nat.le_max_left 1 row.witnesses.length)
  have hpaths : row.paths = n + 1 := hn.trans (Nat.add_comm 1 n)
  rw [hpaths, List.range_eq_range', List.range'_succ]
  rfl

namespace Plan

/-! ## Places -/

/-- The leaf with rows at the tip of the chain of first children, if there is one. -/
def tip? : BasicPlan α → Option (RowSet α)
  | .fixed _ leaf => some leaf
  | .probe _ p _ => tip? p
  | .null _ | .error _ _ => none

/-- The rows at the tip. -/
def tipRows (p : BasicPlan α) : List (Row α) := p.tip?.elim [] RowSet.rows

variable [Item α]

/-- Is the value of the row one of the results of every other child along the chain? -/
def admits : BasicPlan α → Row α → Bool
  | .probe _ p os, row => admits p row && allHave row.value os
  | .null _, _ | .error _ _, _ | .fixed _ _, _ => true

theorem admits_congr {p : BasicPlan α} {row row' : Row α} (h : row.value = row'.value) :
    p.admits row = p.admits row' := by
  induction p using BasicPlan.induct with
  | probe uid p os ih _ =>
    show (p.admits row && allHave row.value os) = (p.admits row' && allHave row'.value os)
    rw [ih, h]
  | _ => rfl

/-- The places at some of the rows, if the first of them has this number: each row that the other
children have too, with the numbers of the ways of reaching it. -/
def placesAt (p : BasicPlan α) : Nat → List (Row α) → List (Nat × Nat)
  | _, [] => []
  | i, row :: rows =>
    (if p.admits row then (List.range row.paths).map (Prod.mk i) else []) ++
      placesAt p (i + 1) rows

/-- The places where a run with paths over the plan stops. -/
def places (p : BasicPlan α) : List (Nat × Nat) := p.placesAt 0 p.tipRows

variable {p : BasicPlan α} {i : Nat} {row : Row α} {rows : List (Row α)}

theorem placesAt_cons_pos (h : p.admits row = true) : p.placesAt i (row :: rows) =
    (List.range row.paths).map (Prod.mk i) ++ p.placesAt (i + 1) rows := by
  rw [placesAt, if_pos h]

theorem placesAt_cons_neg (h : ¬ p.admits row = true) :
    p.placesAt i (row :: rows) = p.placesAt (i + 1) rows := by
  rw [placesAt, if_neg h, List.nil_append]

theorem mem_placesAt {k j : Nat} : (k, j) ∈ p.placesAt i rows ↔
    ∃ n row, rows[n]? = some row ∧ k = i + n ∧ p.admits row = true ∧ j < row.paths := by
  induction rows generalizing i with
  | nil => simp [placesAt]
  | cons row rows ih =>
    rw [placesAt, List.mem_append, ih]
    constructor
    · rintro (h | ⟨n, row', hrow, rfl, hadmits, hj⟩)
      · by_cases hadmits : p.admits row = true
        · rw [if_pos hadmits] at h
          obtain ⟨j', hj', heq⟩ := List.mem_map.1 h
          cases heq
          exact ⟨0, row, rfl, rfl, hadmits, List.mem_range.1 hj'⟩
        · rw [if_neg hadmits] at h
          exact absurd h List.not_mem_nil
      · exact ⟨n + 1, row', hrow, by omega, hadmits, hj⟩
    · rintro ⟨n, row', hrow, rfl, hadmits, hj⟩
      cases n with
      | zero =>
        cases hrow
        rw [if_pos hadmits]
        exact Or.inl (List.mem_map.2 ⟨j, List.mem_range.2 hj, rfl⟩)
      | succ n => exact Or.inr ⟨n, row', hrow, by omega, hadmits, hj⟩

/-- **The places are those of the rows that every other child has**, one for each way. -/
theorem mem_places {i j : Nat} : (i, j) ∈ p.places ↔
    ∃ row, p.tipRows[i]? = some row ∧ p.admits row = true ∧ j < row.paths := by
  rw [places, mem_placesAt]
  constructor
  · rintro ⟨n, row, hrow, rfl, h⟩
    rw [Nat.zero_add]
    exact ⟨row, hrow, h⟩
  · rintro ⟨row, hrow, h⟩
    exact ⟨i, row, hrow, (Nat.zero_add i).symm, h⟩

theorem pairwise_placesAt (p : BasicPlan α) (i : Nat) (rows : List (Row α)) :
    (p.placesAt i rows).Pairwise (Prod.Lex (· < ·) (· < ·)) := by
  induction rows generalizing i with
  | nil => exact .nil
  | cons row rows ih =>
    by_cases h : p.admits row = true
    · rw [placesAt_cons_pos h]
      refine List.pairwise_append.2 ⟨?_, ih (i + 1), ?_⟩
      · exact List.pairwise_map.2 (List.pairwise_lt_range.imp fun hlt => .right i hlt)
      · rintro ⟨k, j⟩ hj ⟨k', j'⟩ hj'
        obtain ⟨_, -, hk⟩ := List.mem_map.1 hj
        cases hk
        obtain ⟨n, -, -, rfl, -⟩ := mem_placesAt.1 hj'
        exact .left _ _ (by omega)
    · rw [placesAt_cons_neg h]
      exact ih (i + 1)

/-- **They are in lexicographic order**, and so none of them comes twice. -/
theorem pairwise_places (p : BasicPlan α) : p.places.Pairwise (Prod.Lex (· < ·) (· < ·)) :=
  p.pairwise_placesAt 0 p.tipRows

/-- Where the other children have none of the rows there is no place. -/
theorem placesAt_eq_nil (h : rows.filter p.admits = []) :
    p.placesAt i rows = [] := by
  induction rows generalizing i with
  | nil => rfl
  | cons row rows ih =>
    have hrow : ¬ p.admits row = true := List.filter_eq_nil_iff.1 h row List.mem_cons_self
    rw [List.filter_cons_of_neg hrow] at h
    rw [placesAt_cons_neg hrow, ih h]

/-- If the row with the number `n` is one that the other children have, and of the rows that they
have only the first does not come behind it, then it is that row, and the first places are on it. -/
theorem placesAt_of_filter {row' : Row α} {rest : List (Row α)} {n : Nat}
    (hfilter : rows.filter p.admits = row :: rest)
    (hrow' : rows[n]? = some row') (hadmits : p.admits row' = true)
    (hrest : (rows.drop (n + 1)).filter p.admits = rest) :
    row' = row ∧ p.placesAt i rows =
      (List.range row.paths).map (Prod.mk (i + n)) ++
        p.placesAt (i + n + 1) (rows.drop (n + 1)) := by
  induction rows generalizing i n with
  | nil => cases hfilter
  | cons r rows ih =>
    cases n with
    | zero =>
      cases hrow'
      rw [List.filter_cons_of_pos hadmits] at hfilter
      obtain ⟨rfl, -⟩ := List.cons.inj hfilter
      exact ⟨rfl, placesAt_cons_pos hadmits⟩
    | succ n =>
      rw [List.drop_succ_cons] at hrest
      by_cases hr : p.admits r = true
      · -- then there would be more of them behind the first than there are
        rw [List.filter_cons_of_pos hr] at hfilter
        obtain ⟨-, hbehind⟩ := List.cons.inj hfilter
        have hmore : (row' :: (rows.drop (n + 1)).filter p.admits).Sublist
            (rows.filter p.admits) := by
          obtain ⟨hlt, hget⟩ := List.getElem?_eq_some_iff.1 hrow'
          have hlt' : n < rows.length := Nat.lt_of_succ_lt_succ hlt
          have hget' : rows[n] = row' := hget
          have hsub := (List.drop_sublist n rows).filter p.admits
          rwa [List.drop_eq_getElem_cons hlt', hget', List.filter_cons_of_pos hadmits] at hsub
        have hlength := hmore.length_le
        rw [hrest, hbehind, List.length_cons] at hlength
        omega
      · rw [List.filter_cons_of_neg hr] at hfilter
        obtain ⟨heq, hplaces⟩ := ih (i := i + 1) hfilter hrow' hrest
        have hnumber : i + 1 + n = i + (n + 1) := by omega
        refine ⟨heq, ?_⟩
        rw [placesAt_cons_neg hr, hplaces, hnumber, List.drop_succ_cons]

end Plan

namespace Cursor

/-! ## The tip -/

/-- The cursor of the leaf at the tip. -/
def tip : {p : BasicPlan α} → Cursor p → RowCursor
  | .fixed _ _, .fixed c => c
  | .probe _ _ _, .probe _ c _ => tip c
  | .null _, _ | .error _ _, _ => .start

variable {p : BasicPlan α}

/-- The result of a tree is that of its tip. -/
theorem result_eq : ∀ c : Cursor p,
    result c = ((tip c).current.bind (p.tipRows[·]?)).map Row.value := by
  induction p using BasicPlan.induct with
  | null uid =>
    intro c
    cases c
    rfl
  | error uid e =>
    intro c
    cases c
    rfl
  | fixed uid leaf =>
    intro c
    cases c
    rfl
  | probe uid p os ih _ =>
    intro c
    cases c with
    | probe e c cs => exact ih c

variable [Item α]

/-- The rows ahead are those at the tip that the other children have too. -/
theorem ahead_eq : ∀ c : Cursor p, ahead c =
    (p.tipRows.drop (tip c).index).filter p.admits := by
  induction p using BasicPlan.induct with
  | null uid =>
    intro c
    cases c
    rfl
  | error uid e =>
    intro c
    cases c
    rfl
  | fixed uid leaf =>
    intro c
    cases c with
    | fixed c => exact (List.filter_eq_self.2 fun _ _ => rfl).symm
  | probe uid p os ih _ =>
    intro c
    cases c with
    | probe e c cs =>
      rw [ahead_probe, ih c, List.filter_filter]
      exact List.filter_congr fun row _ => Bool.and_comm _ _

/-- **A step moves the tip forward**, and if it succeeds, onto a row. -/
theorem next_tip (s : Signal) : ∀ c : Cursor p, (tip c).index ≤ (tip (next s c).2).index ∧
    ((next s c).1 = true → ∃ c₀ : RowCursor, (tip c).index ≤ c₀.index ∧
      c₀.index < p.tipRows.length ∧ tip (next s c).2 = c₀.onto) := by
  induction p using BasicPlan.induct generalizing s with
  | null uid => exact fun c => ⟨Nat.le_refl _, nofun⟩
  | error uid e => exact fun c => ⟨Nat.le_refl _, nofun⟩
  | fixed uid leaf =>
    intro c
    cases c with
    | fixed c =>
      have hends := leaf.next_ends s c
      rw [next_fixed]
      generalize leaf.next s c = answer at hends ⊢
      cases hends with
      | terminal _ => exact ⟨Nat.le_refl _, nofun⟩
      | fired _ _ => exact ⟨Nat.le_refl _, nofun⟩
      | spent _ _ _ => exact ⟨Nat.le_refl _, nofun⟩
      | moved _ _ hi => exact ⟨Nat.le_succ _, fun _ => ⟨c, Nat.le_refl _, hi, rfl⟩⟩
  | probe uid p os ih _ =>
    intro c
    cases c with
    | probe e c cs =>
      have hends : ProbeEnds s (fun c' => (tip c).index ≤ (tip c').index) (fun _ => True) c cs e
          (next s (.probe e c cs : Cursor (.probe uid p os))) :=
        next_probe_ends (fun c' h => Nat.le_trans h (ih .clear c').1) (fun _ _ _ => trivial)
          (Nat.le_refl _) trivial e s
      generalize next s (.probe e c cs : Cursor (.probe uid p os)) = answer at hends ⊢
      cases hends with
      | stopped e => exact ⟨Nat.le_refl _, nofun⟩
      | fired _ => exact ⟨Nat.le_refl _, nofun⟩
      | searched _ h =>
        cases h with
        | @spent c₁ _ _ hc _ hstep =>
          have hc' := (ih .clear c₁).1
          rw [hstep] at hc'
          exact ⟨Nat.le_trans hc hc', nofun⟩
        | @found c₁ _ _ _ _ hc _ hstep _ _ =>
          obtain ⟨hc', honto⟩ := ih .clear c₁
          rw [hstep] at hc' honto
          obtain ⟨c₀, hle, hlt, htip⟩ := honto rfl
          exact ⟨Nat.le_trans hc hc', fun _ => ⟨c₀, Nat.le_trans hc hle, hlt, htip⟩⟩
        | @fault c₁ _ _ _ _ _ hc _ hstep _ _ _ =>
          have hc' := (ih .clear c₁).1
          rw [hstep] at hc'
          exact ⟨Nat.le_trans hc hc', nofun⟩

omit [Item α] in
/-- **A path step that succeeds moves the tip along the row it stands on**, and one that fails
leaves it where it is. -/
theorem nextPath_tip : ∀ c : Cursor p,
    ((nextPath .clear c).1 = true ∧ tip (nextPath .clear c).2 = (tip c).along ∧
      (tip c).current.isSome = true) ∨
    ((nextPath .clear c).1 = false ∧ tip (nextPath .clear c).2 = tip c) := by
  induction p using BasicPlan.induct with
  | null uid =>
    intro c
    cases c
    exact Or.inr ⟨rfl, rfl⟩
  | error uid e =>
    intro c
    cases c
    exact Or.inr ⟨rfl, rfl⟩
  | fixed uid leaf =>
    intro c
    cases c with
    | fixed c =>
      have hends := leaf.nextPath_ends .clear c
      rw [nextPath_fixed]
      generalize leaf.nextPath .clear c = answer at hends ⊢
      cases hends with
      | off _ => exact Or.inr ⟨rfl, rfl⟩
      | fired _ he => cases he
      | spent _ _ _ => exact Or.inr ⟨rfl, rfl⟩
      | moved hr _ _ => exact Or.inl ⟨rfl, rfl, isSome_current hr⟩
  | probe uid p os ih _ =>
    intro c
    cases c with
    | probe e c cs =>
      rw [nextPath_probe]
      exact ih c

/-! ## Places to come -/

/-- The places where a run with paths has still to stop. -/
def placesToCome (phase : Phase) (c : Cursor p) : List (Nat × Nat) :=
  match phase with
  | .results => p.placesAt (tip c).index (p.tipRows.drop (tip c).index)
  | .paths =>
    (tip c).current.elim [] (fun i =>
      (List.range' ((tip c).path + 1) (waysLeft c)).map (Prod.mk i)) ++
      p.placesAt (tip c).index (p.tipRows.drop (tip c).index)

theorem placesToCome_results {c : Cursor p} : placesToCome .results c =
    p.placesAt (tip c).index (p.tipRows.drop (tip c).index) := rfl

/-- On a row, the places to come begin with the ways that are left. -/
theorem placesToCome_paths {c : Cursor p} {i : Nat} (hi : (tip c).current = some i) :
    placesToCome .paths c = (List.range' ((tip c).path + 1) (waysLeft c)).map (Prod.mk i) ++
      placesToCome .results c := by
  show (tip c).current.elim [] _ ++ _ = _
  rw [hi]
  rfl

omit [Item α] in
theorem tip_start (p : BasicPlan α) : tip (start p) = .start := by
  induction p using BasicPlan.induct with
  | null uid => rfl
  | error uid e => rfl
  | fixed uid leaf => rfl
  | probe uid p os ih _ => exact ih

theorem placesToCome_start (p : BasicPlan α) : placesToCome .results (start p) = p.places := by
  rw [placesToCome_results, tip_start]
  rfl

variable {c c' : Cursor p}

/-- **A step that succeeds leads to the first place to come.** -/
theorem placesToCome_next (hc : Healthy c) (h : next .clear c = (true, c')) :
    ∃ i, (tip c').current = some i ∧
      placesToCome .results c = (i, (tip c').path) :: placesToCome .paths c' := by
  obtain ⟨-, hs⟩ := next_stepsTo c hc
  obtain ⟨-, honto⟩ := next_tip .clear c
  rw [h] at hs honto
  obtain ⟨c₀, hle, hlt, htip⟩ := honto rfl
  dsimp only at htip
  have hcurrent : (tip c').current = some c₀.index := by rw [htip]; rfl
  have hpath : (tip c').path = 0 := by rw [htip]; rfl
  have hindex : (tip c').index = c₀.index + 1 := by rw [htip]; rfl
  refine ⟨c₀.index, hcurrent, ?_⟩
  cases ha : ahead c with
  | nil =>
    rw [ha] at hs
    cases hs.1
  | cons row rest =>
    rw [ha] at hs
    obtain ⟨-, ha', hres, hways⟩ := hs
    dsimp only at ha' hres hways
    rw [ahead_eq] at ha ha'
    -- the tip has come to a row with the value of the first row ahead
    have hget : p.tipRows[c₀.index]? = some p.tipRows[c₀.index] := List.getElem?_eq_getElem hlt
    have hvalue : p.tipRows[c₀.index].value = row.value := by
      rw [result_eq, hcurrent, Option.bind_some, hget] at hres
      exact Option.some.inj hres
    have hadmits : p.admits p.tipRows[c₀.index] = true := by
      have hrow : row ∈ (p.tipRows.drop (tip c).index).filter p.admits :=
        ha ▸ List.mem_cons_self
      rw [Plan.admits_congr hvalue]
      exact (List.mem_filter.1 hrow).2
    obtain ⟨n, hn⟩ := Nat.exists_eq_add_of_le hle
    obtain ⟨-, hplaces⟩ := Plan.placesAt_of_filter (i := (tip c).index) (n := n) ha
      (by rw [List.getElem?_drop, ← hn, hget]) hadmits
      (by rw [List.drop_drop, ← Nat.add_assoc, ← hn, ← hindex, ha'])
    rw [placesToCome_results, hplaces, placesToCome_paths hcurrent, placesToCome_results, hpath,
      hindex, hways, Row.range_paths, List.map_cons, List.cons_append, List.drop_drop,
      ← Nat.add_assoc, ← hn]

/-- Where a step fails there are no more places to come. -/
theorem placesToCome_over (hc : Healthy c) (h : next .clear c = (false, c')) :
    placesToCome .results c = [] := by
  obtain ⟨-, hs⟩ := next_stepsTo c hc
  rw [h] at hs
  cases ha : ahead c with
  | nil =>
    rw [ahead_eq] at ha
    rw [placesToCome_results, Plan.placesAt_eq_nil ha]
  | cons row rest =>
    rw [ha] at hs
    cases hs.1

/-- **A path step that succeeds leads to the first place to come.** -/
theorem placesToCome_nextPath (hc : Healthy c) (h : nextPath .clear c = (true, c')) :
    ∃ i, (tip c').current = some i ∧
      placesToCome .paths c = (i, (tip c').path) :: placesToCome .paths c' := by
  obtain ⟨-, -, -, hyes, hways⟩ := nextPath_takesWay c hc
  have htip := nextPath_tip c
  rw [h] at hyes hways htip
  dsimp only at hyes hways htip
  obtain ⟨-, htip, hsome⟩ | ⟨hno, -⟩ := htip
  · obtain ⟨i, hi⟩ := Option.isSome_iff_exists.1 hsome
    have hi' : (tip c').current = some i := by rw [htip]; exact hi
    have hpath : (tip c').path = (tip c).path + 1 := by rw [htip]; rfl
    have hsame : placesToCome .results c' = placesToCome .results c := by
      rw [placesToCome_results, placesToCome_results, htip]
      rfl
    have hpos : 0 < waysLeft c := of_decide_eq_true hyes.symm
    obtain ⟨m, hm⟩ := Nat.exists_eq_succ_of_ne_zero (Nat.ne_of_gt hpos)
    refine ⟨i, hi', ?_⟩
    rw [placesToCome_paths hi, placesToCome_paths hi', hsame, hpath, hways, hm, List.range'_succ,
      List.map_cons, List.cons_append]
    rfl
  · cases hno

/-- A path step that fails leaves the places on the rows that come next. -/
theorem placesToCome_back (hc : Healthy c) (h : nextPath .clear c = (false, c')) :
    placesToCome .paths c = placesToCome .results c' := by
  obtain ⟨-, -, -, hyes, -⟩ := nextPath_takesWay c hc
  have htip := nextPath_tip c
  rw [h] at hyes htip
  obtain ⟨hyes', -⟩ | ⟨-, htip⟩ := htip
  · cases hyes'
  · have hways : waysLeft c = 0 := by simpa using hyes.symm
    dsimp only at htip
    rw [placesToCome_results, htip]
    cases hi : (tip c).current with
    | none =>
      show (tip c).current.elim [] _ ++ _ = _
      rw [hi]
      rfl
    | some i =>
      rw [placesToCome_paths hi, hways]
      rfl

end Cursor

end QueryPlan
