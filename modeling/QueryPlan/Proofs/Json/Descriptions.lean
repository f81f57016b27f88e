import QueryPlan.Proofs.Json.Codecs
import QueryPlan.Proofs.Tree.Descriptions

/-!
# The text of a description

A description is written as indented JSON, in which a node without an error has no member for it
and a leaf none for its children.  Nothing is lost by that: a text is read back as the one JSON
value that it was written from, whatever stands in labels and messages, and that value has a member
for all that there is.

* `Json.print_inj` — different JSON values have different texts.
* `Description.toJson_inj` — different descriptions have different JSON forms.
* `Description.text_tells_all` — **the text of a description tells all that the description does.**
-/

namespace QueryPlan

/-! ## Texts -/

theorem JsonStyle.blank_indented : JsonStyle.indented.Blank where
  line depth c h := by
    rcases List.mem_cons.1 h with rfl | h
    · rfl
    · rw [List.eq_of_mem_replicate h]
      rfl
  gap c h := by
    rw [List.mem_singleton.1 h]
    rfl

namespace Json

/-- **Different values have different texts**, however they are written. -/
theorem print_inj {st : JsonStyle} (hst : st.Blank) {j j' : Json} (hj : j.Whole) (hj' : j'.Whole) :
    print st j = print st j' ↔ j = j' := by
  refine ⟨fun h => ?_, congrArg (print st)⟩
  have hread := parse?_print hst hj
  rw [h, parse?_print hst hj'] at hread
  exact (Option.some.inj hread).symm

/-! ## Values -/

theorem ofInt_inj {i i' : Int} : ofInt i = ofInt i' ↔ i = i' := by
  refine ⟨fun h => ?_, congrArg ofInt⟩
  have hvalue := congrArg Numeral.toInt? (num.inj h)
  rw [Numeral.toInt?_ofInt, Numeral.toInt?_ofInt] at hvalue
  exact Option.some.inj hvalue

theorem ofString_inj {s s' : String} : ofString s = ofString s' ↔ s = s' :=
  ⟨fun h => String.toList_inj.1 (str.inj h), congrArg ofString⟩

theorem ofFields_inj {fields fields' : List (String × Json)} :
    ofFields fields = ofFields fields' ↔ fields = fields' := by
  refine ⟨fun h => ?_, congrArg ofFields⟩
  refine List.map_injective_iff.2 ?_ (obj.inj h)
  rintro ⟨name, x⟩ ⟨name', x'⟩ heq
  obtain ⟨hname, hx⟩ := Prod.mk.inj heq
  exact Prod.ext (String.toList_inj.1 hname) hx

end Json

/-- Two things with a faithful form have the same form only if they are the same. -/
theorem JsonCodec.Faithful.toJson_inj {α : Type} [JsonCodec α] {x x' : α} (h : Faithful x)
    (h' : Faithful x') : toJson x = toJson x' ↔ x = x' := by
  refine ⟨fun heq => ?_, congrArg toJson⟩
  have hback := h.back
  rw [heq, h'.back] at hback
  exact (Option.some.inj hback).symm

/-- A size of any value has a form of its own, also beyond the values that are read back. -/
theorem Size.toJson_inj {s s' : Size} : JsonCodec.toJson s = JsonCodec.toJson s' ↔ s = s' := by
  refine ⟨fun h => ?_, congrArg JsonCodec.toJson⟩
  have hfields := Json.ofFields_inj.1 h
  obtain ⟨value, exact⟩ := s
  obtain ⟨value', exact'⟩ := s'
  simpa [Json.ofInt_inj] using hfields

theorem Size.whole_toJson (s : Size) : (JsonCodec.toJson s).Whole := by
  apply Json.whole_ofFields
  simp [Json.whole_ofInt, Json.Whole.bool]

namespace Description

/-! ## JSON forms -/

section Equations

variable {uid : Uid} {name : String} {domain : Domain} {size : Size} {error : Option String}
  {children : List Description}

theorem toJson_node : toJson (.node uid name domain size error children) =
    .ofFields ([("uid", JsonCodec.toJson uid), ("name", .ofString name),
      ("domain", JsonCodec.toJson domain), ("size", JsonCodec.toJson size)] ++
      errorMember error ++ childrenMember children) := rfl

end Equations

theorem toJsons_eq_map (ds : List Description) : toJsons ds = ds.map toJson := by
  induction ds with
  | nil => rfl
  | cons d ds ih =>
    rw [List.map_cons, ← ih]
    rfl

theorem childrenMember_cons (d : Description) (ds : List Description) :
    childrenMember (d :: ds) = [("children", .arr ((d :: ds).map toJson))] := by
  rw [← toJsons_eq_map]
  rfl

theorem whole_errorMember (error : Option String) : ∀ m ∈ errorMember error, m.2.Whole := by
  cases error with
  | none => exact fun m hm => absurd hm List.not_mem_nil
  | some message =>
    intro m hm
    rw [List.mem_singleton.1 hm]
    exact Json.whole_ofString message

theorem whole_childrenMember {children : List Description} (h : ∀ d ∈ children, d.toJson.Whole) :
    ∀ m ∈ childrenMember children, m.2.Whole := by
  cases children with
  | nil => exact fun m hm => absurd hm List.not_mem_nil
  | cons d ds =>
    intro m hm
    rw [childrenMember_cons] at hm
    rw [List.mem_singleton.1 hm]
    refine .arr fun x hx => ?_
    obtain ⟨d', hd', rfl⟩ := List.mem_map.1 hx
    exact h d' hd'

/-- The JSON form of a description can stand in a text. -/
theorem whole_toJson (d : Description) : d.toJson.Whole := by
  induction d using induct with
  | node uid name domain size error children ih =>
    rw [toJson_node]
    refine Json.whole_ofFields fun m hm => ?_
    rcases List.mem_append.1 hm with hm | hm
    · rcases List.mem_append.1 hm with hm | hm
      · simp only [List.mem_cons, List.not_mem_nil, or_false] at hm
        rcases hm with rfl | rfl | rfl | rfl
        · exact uid.faithful.whole
        · exact Json.whole_ofString name
        · exact domain.faithful.whole
        · exact size.whole_toJson
      · exact whole_errorMember error m hm
    · exact whole_childrenMember ih m hm

/-! ## What the forms tell -/

/-- The members that can be left out tell what is there. -/
theorem optional_members_inj {error error' : Option String} {children children' : List Description}
    (h : errorMember error ++ childrenMember children =
      errorMember error' ++ childrenMember children') :
    error = error' ∧ children.map toJson = children'.map toJson := by
  -- the two are written under different names, so the first member tells which of them it is
  cases error <;> cases error' <;> cases children <;> cases children' <;>
    simp_all [errorMember, childrenMember, Json.ofString_inj, toJsons_eq_map]

/-- Lists that a function maps to the same list are the same, if it tells the elements of the first
from everything else. -/
theorem eq_of_map_eq {α β : Type} {f : α → β} {xs : List α}
    (hf : ∀ x ∈ xs, ∀ y, f x = f y → x = y) : ∀ {ys}, xs.map f = ys.map f → xs = ys := by
  induction xs with
  | nil =>
    intro ys h
    exact (List.map_eq_nil_iff.1 h.symm).symm
  | cons x xs ih =>
    intro ys h
    cases ys with
    | nil => cases h
    | cons y ys =>
      obtain ⟨hx, hxs⟩ := List.cons.inj h
      rw [hf x List.mem_cons_self y hx, ih (fun z hz => hf z (List.mem_cons_of_mem _ hz)) hxs]

/-- **Different descriptions have different JSON forms.** -/
theorem toJson_inj {d d' : Description} : d.toJson = d'.toJson ↔ d = d' := by
  refine ⟨fun h => ?_, congrArg toJson⟩
  induction d using induct generalizing d' with
  | node uid name domain size error children ih =>
    obtain ⟨uid', name', domain', size', error', children'⟩ := d'
    rw [toJson_node, toJson_node, Json.ofFields_inj, List.append_assoc, List.append_assoc] at h
    obtain ⟨hfixed, hoptional⟩ := List.append_inj h rfl
    obtain ⟨herror, hchildren⟩ := optional_members_inj hoptional
    simp only [List.cons.injEq, Prod.mk.injEq, true_and, and_true,
      uid.faithful.toJson_inj uid'.faithful, Json.ofString_inj,
      domain.faithful.toJson_inj domain'.faithful, Size.toJson_inj] at hfixed
    obtain ⟨rfl, rfl, rfl, rfl⟩ := hfixed
    rw [herror, eq_of_map_eq (fun d hd d' => ih d hd) hchildren]

/-- The names of the members that are written. -/
def keys : Description → List String
  | .node _ _ _ _ error children =>
    ["uid", "name", "domain", "size"] ++ (if error.isSome then ["error"] else []) ++
      (if children.isEmpty then [] else ["children"])

/-- **The text of a description tells all that the description does.**  Two descriptions, of trees
of any shape, have the same text exactly if they are the same.  Yet a text has a member for the
error only if there is one, and for the children only if there are any. -/
theorem text_tells_all :
    (∀ d d' : Description, d.write = d'.write ↔ d = d') ∧
    ∀ d : Description, ∃ members, Json.parse? d.write.toList = some (.obj members) ∧
      members.map Prod.fst = d.keys.map String.toList := by
  refine ⟨fun d d' => ?_, fun d => ?_⟩
  · calc d.write = d'.write
        ↔ d.toJson.print .indented = d'.toJson.print .indented := String.ofList_inj
      _ ↔ d.toJson = d'.toJson :=
        Json.print_inj JsonStyle.blank_indented d.whole_toJson d'.whole_toJson
      _ ↔ d = d' := toJson_inj
  · have htext : d.write.toList = d.toJson.print .indented := String.toList_ofList
    rw [htext, Json.parse?_print JsonStyle.blank_indented d.whole_toJson]
    obtain ⟨uid, name, domain, size, error, children⟩ := d
    refine ⟨_, congrArg some toJson_node, ?_⟩
    cases error <;> cases children <;> rfl

end Description

end QueryPlan
