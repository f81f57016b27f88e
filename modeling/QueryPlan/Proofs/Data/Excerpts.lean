import Mathlib.Tactic.SplitIfs
import QueryPlan.Data.Value

/-!
# What an error shows of a value

A type mismatch keeps the beginning of the offending value's text, up to a hundred characters, and
marks a cut by three dots.  Lengths are counted in characters and texts are stored as bytes, so the
cut is a place between two characters, wherever that is among the bytes.  With its dots a cut text
is too long again, but what is cut off the second time are the dots, and they are put back: an error
may be built from a value, from the value's text or from what another error shows of it.

* `DataError.shown_eq`, `DataError.length_shown_le` — what is shown, and how long it can be.
* `DataError.shown_shown` — showing again changes nothing.
* `DataError.exists_cut` — the bytes that are kept end between two characters.
* `DataError.value_is_cut_once` — **all of it for anything that has a text, and what it means for
  the conversions of values.**
-/

namespace QueryPlan

namespace DataError

/-! ## Cutting lists of characters -/

theorem excerpt_of_length_le {cs : List Char} (h : cs.length ≤ excerptLength) : excerpt cs = cs :=
  if_neg (Nat.not_lt.2 h)

theorem excerpt_of_lt_length {cs : List Char} (h : excerptLength < cs.length) :
    excerpt cs = cs.take excerptLength ++ ['.', '.', '.'] :=
  if_pos h

/-- A cut text has a hundred characters and three dots. -/
theorem length_excerpt_of_lt {cs : List Char} (h : excerptLength < cs.length) :
    (excerpt cs).length = excerptLength + 3 := by
  rw [excerpt_of_lt_length h, List.length_append, List.length_take_of_le (Nat.le_of_lt h)]
  rfl

theorem length_excerpt_le (cs : List Char) : (excerpt cs).length ≤ excerptLength + 3 := by
  by_cases h : excerptLength < cs.length
  · exact Nat.le_of_eq (length_excerpt_of_lt h)
  · rw [excerpt_of_length_le (Nat.not_lt.1 h)]
    omega

/-- Cutting again takes the dots away and puts them back. -/
theorem excerpt_excerpt (cs : List Char) : excerpt (excerpt cs) = excerpt cs := by
  by_cases h : excerptLength < cs.length
  · have hlong : excerptLength < (excerpt cs).length := by
      rw [length_excerpt_of_lt h]
      omega
    -- the first hundred characters of the result are those that were kept
    have hkept : (cs.take excerptLength).length = excerptLength :=
      List.length_take_of_le (Nat.le_of_lt h)
    rw [excerpt_of_lt_length hlong, excerpt_of_lt_length h, List.take_left' hkept]
  · rw [excerpt_of_length_le (Nat.not_lt.1 h), excerpt_of_length_le (Nat.not_lt.1 h)]

-- a text that is one character too long comes out longer than it was
example : excerpt (excerpt (List.replicate 101 'é')) = List.replicate 100 'é' ++ ['.', '.', '.'] :=
  rfl

/-! ## What is shown of a text -/

/-- What an error shows of a text. -/
def shown (d : String) : String := String.ofList (excerpt d.toList)

theorem mismatchShowing_eq {α : Type} [ToString α] (expected actual : String) (x : α) :
    mismatchShowing expected actual x =
      .typeMismatch expected actual (some (shown (toString x))) := rfl

/-- A text is shown whole if it has at most a hundred characters, and else its first hundred
characters and three dots. -/
theorem shown_eq (d : String) :
    shown d = if d.length ≤ 100 then d else (d.take 100).copy ++ "..." := by
  split_ifs with h
  · rw [← String.length_toList] at h
    rw [shown, excerpt_of_length_le h, String.ofList_toList]
  · rw [← String.length_toList, Nat.not_le] at h
    rw [← String.toList_inj, shown, excerpt_of_lt_length h, String.toList_ofList,
      String.toList_append, String.toList_copy_take]
    rfl

theorem length_shown_le (d : String) : (shown d).length ≤ 103 := by
  rw [shown, String.length_ofList]
  exact length_excerpt_le d.toList

theorem shown_shown (d : String) : shown (shown d) = shown d := by
  rw [shown, shown, String.toList_ofList, excerpt_excerpt]

/-- A mismatch may be built from what another one shows. -/
theorem mismatchShowing_shown {α : Type} [ToString α] (expected actual : String) (x : α) :
    mismatchShowing expected actual (shown (toString x)) = mismatchShowing expected actual x := by
  have htext : toString (shown (toString x)) = shown (toString x) := rfl
  rw [mismatchShowing_eq, mismatchShowing_eq, htext, shown_shown]

/-- The bytes of a beginning end between two characters. -/
theorem isValid_rawEndPos_append (s t : String) : s.rawEndPos.IsValid (s ++ t) :=
  String.Pos.Raw.isValid_iff_exists_append.2 ⟨s, t, rfl, rfl⟩

theorem extract_rawEndPos_append (s t : String) :
    (s ++ t).toByteArray.extract 0 s.rawEndPos.byteIdx = s.toByteArray := by
  rw [String.toByteArray_append]
  exact ByteArray.extract_append_eq_left String.size_toByteArray.symm

/-- What is shown is a beginning of the text, with dots behind it if anything is missing. -/
theorem exists_beginning (d : String) : ∃ kept rest : String,
    d = kept ++ rest ∧ shown d = kept ++ if d.length ≤ 100 then "" else "..." := by
  refine ⟨(d.take 100).copy, String.ofList (d.toList.drop 100), ?_, ?_⟩
  · rw [← String.toList_inj, String.toList_append, String.toList_copy_take, String.toList_ofList,
      List.take_append_drop]
  · rw [shown_eq]
    split_ifs with h
    · rw [String.append_empty, ← String.toList_inj, String.toList_copy_take]
      exact (List.take_of_length_le h).symm
    · rfl

/-- **No character is split.**  What is shown of a text are its bytes up to a place between two
characters, and dots if anything is missing. -/
theorem exists_cut (d : String) : ∃ cut : String.Pos.Raw, cut.IsValid d ∧
    (shown d).toByteArray = d.toByteArray.extract 0 cut.byteIdx ++
      (if d.length ≤ 100 then "" else "...").toByteArray := by
  obtain ⟨kept, rest, hd, hshown⟩ := exists_beginning d
  have hbytes : d.toByteArray.extract 0 kept.rawEndPos.byteIdx = kept.toByteArray := by
    rw [hd]
    exact extract_rawEndPos_append kept rest
  refine ⟨kept.rawEndPos, ?_, ?_⟩
  · rw [hd]
    exact isValid_rawEndPos_append kept rest
  · rw [hshown, String.toByteArray_append, hbytes]

end DataError

/-! ## Conversions of values -/

namespace Value

/-- An error that reports a value as not of the kind asked for.  It is the same whether it is built
from the value, from its text or from what an error shows of that text. -/
structure Reports (expected : String) (v : Value) (e : DataError) : Prop where
  /-- It is built from the value. -/
  ofValue : e = .mismatchShowing expected v.kindName v
  /-- It is built from the value's text. -/
  ofText : e = .mismatchShowing expected v.kindName (toString v)
  /-- It is built from what an error shows of the value's text. -/
  ofShown : e = .mismatchShowing expected v.kindName (DataError.shown (toString v))

theorem reports_mismatchShowing (expected : String) (v : Value) :
    Reports expected v (.mismatchShowing expected v.kindName v) where
  ofValue := rfl
  ofText := rfl
  ofShown := (DataError.mismatchShowing_shown expected v.kindName v).symm

/-- A conversion fails exactly if the value has no content of the kind asked for, and then it
reports the value. -/
theorem orMismatch_eq_error_iff {α : Type} {expected : String} {v : Value} {x : Option α}
    {e : DataError} :
    orMismatch expected v x = .error e ↔ x = none ∧ Reports expected v e := by
  cases x with
  | some x =>
    constructor
    · intro h
      cases h
    · rintro ⟨h, -⟩
      cases h
  | none =>
    constructor
    · intro h
      cases h
      exact ⟨rfl, reports_mismatchShowing expected v⟩
    · rintro ⟨-, h⟩
      exact congrArg Except.error h.ofValue.symm

end Value

/-- **A value is cut once.**  What a type mismatch shows of anything that has a text is the whole
text if that has at most a hundred characters, and else its first hundred characters and three dots.
It has at most a hundred and three characters, its bytes are those of the text up to a place between
two characters, and it is shown as it is by another mismatch.  So the error of a conversion that
fails is the one built from the value, from its text or from what is shown of that text. -/
theorem DataError.value_is_cut_once :
    (∀ (α : Type) [ToString α] (expected actual : String) (x : α),
      mismatchShowing expected actual x =
        .typeMismatch expected actual (some (shown (toString x))) ∧
      mismatchShowing expected actual (shown (toString x)) =
        .typeMismatch expected actual (some (shown (toString x)))) ∧
    (∀ d : String,
      shown d = (if d.length ≤ 100 then d else (d.take 100).copy ++ "...") ∧
      (shown d).length ≤ 103 ∧
      ∃ cut : String.Pos.Raw, cut.IsValid d ∧
        (shown d).toByteArray = d.toByteArray.extract 0 cut.byteIdx ++
          (if d.length ≤ 100 then "" else "...").toByteArray) ∧
    ∀ (v : Value) (e : DataError),
      (v.toInt = .error e ↔ v.int? = none ∧ Value.Reports "int" v e) ∧
      (v.toFloat = .error e ↔ v.float? = none ∧ Value.Reports "float" v e) ∧
      (v.toBool = .error e ↔ v.bool? = none ∧ Value.Reports "bool" v e) := by
  refine ⟨fun α _ expected actual x => ⟨mismatchShowing_eq expected actual x, ?_⟩,
    fun d => ⟨shown_eq d, length_shown_le d, exists_cut d⟩, fun v e => ⟨?_, ?_, ?_⟩⟩
  · rw [mismatchShowing_shown, mismatchShowing_eq]
  · exact Value.orMismatch_eq_error_iff
  · exact Value.orMismatch_eq_error_iff
  · exact Value.orMismatch_eq_error_iff

end QueryPlan
