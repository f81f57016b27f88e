import QueryPlan.Data.Value.Codec
import QueryPlan.Plan.Domain
import QueryPlan.Plan.Identity
import QueryPlan.Plan.Progress
import QueryPlan.Plan.Size
import QueryPlan.Proofs.Json.ReadBack
import QueryPlan.Run.Options

/-!
# Data that is written as JSON reads back

The JSON form of a record, of an alternative and of an integer is written by one function and
taken apart by another.  What the two halves have in common is said here once for each of these
shapes; every type with a JSON form is put together from them.

* `JsonCodec.Faithful` — a thing whose JSON form a text can hold and stands for that thing.
* `Json.fields?_ofFields`, `Json.allFields?_ofFields` — a record gives back its fields, in order.
* `Json.asInt64?_ofInt`, `Json.asNat64?_ofInt` — an integer of 64 bits is read as itself.
* `JsonCodec.written_reads_back` — **what is written reads back**, floats aside.
-/

namespace QueryPlan

/-! ## Faithful forms -/

/-- The JSON form of the thing can stand in a text, and it stands for the thing. -/
structure JsonCodec.Faithful {α : Type} [JsonCodec α] (x : α) : Prop where
  /-- A text can hold the form. -/
  whole : (toJson x).Whole
  /-- The form stands for the thing. -/
  back : ofJson? (toJson x) = some x

theorem JsonCodec.Faithful.read?_write {α : Type} [JsonCodec α] {x : α} (h : Faithful x) :
    read? (write x) = some x := by
  have htext : (write x).toList = (toJson x).print .compact := String.toList_ofList
  rw [read?, htext, Json.parse?_print JsonStyle.blank_compact h.whole]
  exact h.back

namespace Json

/-! ## Integers -/

theorem whole_ofInt (i : Int) : (ofInt i).Whole := .num (Numeral.wellFormed_ofInt i)

theorem asIntWithin?_ofInt {low high i : Int} (hlow : low ≤ i) (hhigh : i ≤ high) :
    (ofInt i).asIntWithin? low high = some i := by
  simp [ofInt, asIntWithin?, Numeral.toInt?_ofInt, hlow, hhigh]

theorem asInt64?_ofInt (i : Int64) : (ofInt i.toInt).asInt64? = some i.toInt := by
  have hlow := i.le_toInt
  have hhigh := i.toInt_lt
  have hpower : Power.two 63 = 9223372036854775808 := rfl
  exact asIntWithin?_ofInt (by omega) (by omega)

theorem asNat64?_ofInt (n : UInt64) : (ofInt n.toNat).asNat64? = some n.toNat := by
  have hhigh := n.toNat_lt
  have hpower : Power.two 64 = 18446744073709551616 := rfl
  rw [asNat64?, asIntWithin?_ofInt (by omega) (by omega)]
  simp

/-! ## Records -/

theorem whole_ofFields {fields : List (String × Json)} (h : ∀ f ∈ fields, f.2.Whole) :
    (ofFields fields).Whole := by
  refine .obj fun m hm => ?_
  obtain ⟨f, hf, rfl⟩ := List.mem_map.1 hm
  exact h f hf

/-- A field that is written under a name of its own is found under it. -/
theorem field?_of_mem {fields : List (String × Json)} (hnames : (fields.map Prod.fst).Nodup)
    {f : String × Json} (hf : f ∈ fields) :
    field? (fields.map fun (name, x) => (name.toList, x)) f.1 = some (some f.2) := by
  have hfilter : (fields.map fun (name, x) => (name.toList, x)).filter
      (fun m => m.1 == f.1.toList) = [(f.1.toList, f.2)] := by
    induction fields with
    | nil => cases hf
    | cons g fields ih =>
      obtain ⟨hg, hnames⟩ := List.nodup_cons.1 hnames
      rcases List.mem_cons.1 hf with rfl | hf
      · -- no other field has the name
        have hnone : (fields.map fun (name, x) => (name.toList, x)).filter
            (fun m => m.1 == f.1.toList) = [] := by
          rw [List.filter_eq_nil_iff]
          intro m hm heq
          obtain ⟨g, hgmem, rfl⟩ := List.mem_map.1 hm
          have hname : g.1 = f.1 := String.toList_inj.1 (beq_iff_eq.1 heq)
          exact hg (hname ▸ List.mem_map_of_mem hgmem)
        rw [List.map_cons, List.filter_cons, hnone]
        simp
      · have hne : g.1 ≠ f.1 := by
          rintro heq
          exact hg (heq ▸ List.mem_map_of_mem hf)
        simpa [String.toList_inj, hne] using ih hnames hf
  rw [field?, hfilter]

theorem fields?_ofFields {fields : List (String × Json)} {names : List String}
    (h : fields.map Prod.fst = names) (hnames : names.Nodup) :
    (ofFields fields).fields? names = some (fields.map fun f => some f.2) := by
  subst h
  have hsome : ∀ fs : List (String × Json), fs ⊆ fields →
      (fs.map Prod.fst).mapM (field? (fields.map fun (name, x) => (name.toList, x))) =
        some (fs.map fun f => some f.2) := by
    intro fs hfs
    induction fs with
    | nil => rfl
    | cons f fs ih =>
      have hf := field?_of_mem hnames (hfs List.mem_cons_self)
      simp [hf, ih fun g hg => hfs (List.mem_cons_of_mem _ hg)]
  exact hsome fields (List.Subset.refl _)

theorem allFields?_ofFields {fields : List (String × Json)} {names : List String}
    (h : fields.map Prod.fst = names) (hnames : names.Nodup) :
    (ofFields fields).allFields? names = some (fields.map Prod.snd) := by
  have hid : (fields.map fun f => some f.2).mapM id = some (fields.map Prod.snd) := by
    clear h
    induction fields with
    | nil => rfl
    | cons f fs ih => simp_all
  rw [allFields?, fields?_ofFields h hnames]
  exact hid

/-! ## Alternatives -/

theorem whole_ofVariant (name : String) {x : Json} (hx : x.Whole) : (ofVariant name x).Whole := by
  refine .obj fun m hm => ?_
  rw [List.mem_singleton.1 hm]
  exact hx

theorem unitVariant?_ofString (name : String) : (ofString name).unitVariant? = some name.toList :=
  rfl

theorem whole_ofString (s : String) : (ofString s).Whole := .str _

theorem asString?_ofString (s : String) : (ofString s).asString? = some s := by
  simp [ofString, asString?]

theorem asBool?_bool (b : Bool) : (Json.bool b).asBool? = some b := rfl

end Json

/-! ## Values -/

namespace Value

theorem readPair?_ofFields {first second : String} (hnames : [first, second].Nodup)
    (s t : String) :
    readPair? first second (.ofFields [(first, .ofString s), (second, .ofString t)]) =
      some (s, t) := by
  have hfields : (Json.ofFields [(first, .ofString s), (second, .ofString t)]).allFields?
      [first, second] = some [.ofString s, .ofString t] := Json.allFields?_ofFields rfl hnames
  rw [readPair?, hfields]
  simp [Json.asString?_ofString]

theorem whole_pair (first second s t : String) :
    (Json.ofFields [(first, .ofString s), (second, .ofString t)]).Whole := by
  apply Json.whole_ofFields
  simp [Json.whole_ofString]

/-- **A value that is no float has a faithful form.** -/
theorem faithful {v : Value} (hv : ∀ x, v ≠ .float x) : JsonCodec.Faithful v := by
  have hback (name : String) (x : Json) (h : ofVariant? name.toList x = some v) :
      ofJson? (.ofVariant name x) = some v := h
  cases v with
  | string s =>
    refine ⟨Json.whole_ofVariant _ (Json.whole_ofString s), hback _ _ ?_⟩
    simp [ofVariant?, Json.asString?_ofString]
  | iri s =>
    refine ⟨Json.whole_ofVariant _ (Json.whole_ofString s), hback _ _ ?_⟩
    simp [ofVariant?, Json.asString?_ofString]
  | blank s =>
    refine ⟨Json.whole_ofVariant _ (Json.whole_ofString s), hback _ _ ?_⟩
    simp [ofVariant?, Json.asString?_ofString]
  | typed s datatype =>
    refine ⟨Json.whole_ofVariant _ (whole_pair _ _ s datatype), hback _ _ ?_⟩
    simp [ofVariant?, readPair?_ofFields]
  | lang s tag =>
    refine ⟨Json.whole_ofVariant _ (whole_pair _ _ s tag), hback _ _ ?_⟩
    simp [ofVariant?, readPair?_ofFields]
  | int i =>
    refine ⟨Json.whole_ofVariant _ (Json.whole_ofInt _), hback _ _ ?_⟩
    simp [ofVariant?, Json.asInt64?_ofInt]
  | float x => exact absurd rfl (hv x)
  | bool b =>
    refine ⟨Json.whole_ofVariant _ (.bool b), hback _ _ ?_⟩
    simp [ofVariant?, Json.asBool?_bool]

end Value

/-! ## Options, sizes, costs and identities -/

theorem RunOptions.limitOfJson?_ofInt (n : UInt64) :
    limitOfJson? (.ofInt n.toNat) = some (some n.toNat) := by
  have h : limitOfJson? (.ofInt n.toNat) = (Json.ofInt n.toNat).asNat64?.map some := rfl
  rw [h, Json.asNat64?_ofInt]
  rfl

/-- The options of a run have a faithful form, whatever limit of 64 bits they set, or none. -/
theorem RunOptions.faithful (limit : Option UInt64) (paths : Bool) :
    JsonCodec.Faithful (⟨limit.map UInt64.toNat, paths⟩ : RunOptions) where
  whole := by
    apply Json.whole_ofFields
    cases limit <;> simp [Json.Whole.null, Json.whole_ofInt, Json.Whole.bool]
  back := by
    have hfields (x y : Json) : (Json.ofFields [("limit", x), ("paths", y)]).fields?
        ["limit", "paths"] = some [some x, some y] := Json.fields?_ofFields rfl (by decide)
    simp only [JsonCodec.ofJson?, JsonCodec.toJson, hfields]
    cases limit with
    | none => rfl
    | some n => simp [limitOfJson?_ofInt, Json.asBool?_bool]

/-- A size has a faithful form, whatever number of 64 bits it is. -/
theorem Size.faithful (value : Int64) (exact : Bool) :
    JsonCodec.Faithful (⟨value.toInt, exact⟩ : Size) where
  whole := by
    apply Json.whole_ofFields
    simp [Json.whole_ofInt, Json.Whole.bool]
  back := by
    have hfields (x y : Json) : (Json.ofFields [("value", x), ("exact", y)]).allFields?
        ["value", "exact"] = some [x, y] := Json.allFields?_ofFields rfl (by decide)
    simp only [JsonCodec.ofJson?, JsonCodec.toJson, hfields]
    simp [Json.asInt64?_ofInt, Json.asBool?_bool]

/-- Sizes and costs have a faithful form, whatever numbers of 64 bits they are. -/
theorem Stats.faithful (containsCost nextCost sizeValue nexts contains hits : Int64)
    (exact : Bool) :
    JsonCodec.Faithful (⟨containsCost.toInt, nextCost.toInt, ⟨sizeValue.toInt, exact⟩,
      nexts.toInt, contains.toInt, hits.toInt⟩ : Stats) where
  whole := by
    apply Json.whole_ofFields
    simp [Json.whole_ofInt, (Size.faithful sizeValue exact).whole]
  back := by
    have hfields (a b c d e f : Json) : (Json.ofFields [("contains_cost", a), ("next_cost", b),
        ("size", c), ("next", d), ("contains", e), ("contains_next", f)]).allFields?
          ["contains_cost", "next_cost", "size", "next", "contains", "contains_next"] =
        some [a, b, c, d, e, f] := Json.allFields?_ofFields rfl (by decide)
    have hsize := (Size.faithful sizeValue exact).back
    change (Json.allFields? _ (.ofFields _)).bind _ = _
    rw [hfields]
    simp [Json.asInt64?_ofInt, hsize]

theorem Uid.faithful (u : Uid) : JsonCodec.Faithful u where
  whole := Json.whole_ofInt _
  back := by
    simp only [JsonCodec.ofJson?, JsonCodec.toJson]
    rw [Json.asNat64?_ofInt]
    simp

/-! ## Names -/

theorem CursorState.faithful (s : CursorState) : JsonCodec.Faithful s where
  whole := Json.whole_ofString _
  back := by
    simp only [JsonCodec.ofJson?, JsonCodec.toJson, Json.unitVariant?_ofString]
    cases s <;> decide

theorem Domain.faithful (d : Domain) : JsonCodec.Faithful d where
  whole := Json.whole_ofString _
  back := by
    simp only [JsonCodec.ofJson?, JsonCodec.toJson, Json.unitVariant?_ofString]
    cases d <;> decide

/-! ## Everything -/

/-- **What is written reads back.**  This holds of every value that is no float, with any
characters in its texts; of the options of a run, with any limit of 64 bits or none; of sizes
and costs over all numbers of 64 bits with sign; and of every identity, state and domain. -/
theorem JsonCodec.written_reads_back :
    (∀ v : Value, (∀ x, v ≠ .float x) → read? (write v) = some v) ∧
    (∀ (limit : Option UInt64) (paths : Bool),
      let options : RunOptions := ⟨limit.map UInt64.toNat, paths⟩
      read? (write options) = some options) ∧
    (∀ (value : Int64) (exact : Bool),
      let size : Size := ⟨value.toInt, exact⟩
      read? (write size) = some size) ∧
    (∀ (containsCost nextCost sizeValue nexts contains hits : Int64) (exact : Bool),
      let stats : Stats := ⟨containsCost.toInt, nextCost.toInt, ⟨sizeValue.toInt, exact⟩,
        nexts.toInt, contains.toInt, hits.toInt⟩
      read? (write stats) = some stats) ∧
    (∀ u : Uid, read? (write u) = some u) ∧
    (∀ s : CursorState, read? (write s) = some s) ∧
    ∀ d : Domain, read? (write d) = some d :=
  ⟨fun _ hv => (Value.faithful hv).read?_write,
    fun limit paths => (RunOptions.faithful limit paths).read?_write,
    fun value exact => (Size.faithful value exact).read?_write,
    fun _ _ _ _ _ _ _ => (Stats.faithful ..).read?_write,
    fun u => u.faithful.read?_write,
    fun s => s.faithful.read?_write,
    fun d => d.faithful.read?_write⟩

/-- A literal whose texts hold a quote, a backslash, control characters and characters far
beyond the first plane. -/
def awkwardLiteral : Value := .typed "\"\\\n\x01\x7f" "é😀/\t"

theorem JsonCodec.written_reads_back_awkwardLiteral :
    (∀ x, awkwardLiteral ≠ .float x) ∧ read? (write awkwardLiteral) = some awkwardLiteral := by
  have hkind : ∀ x, awkwardLiteral ≠ .float x := by
    intro x h
    cases h
  exact ⟨hkind, written_reads_back.1 awkwardLiteral hkind⟩

end QueryPlan
