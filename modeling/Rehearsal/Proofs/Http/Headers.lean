import Mathlib.Data.List.Basic
import Mathlib.Data.List.Induction
import Mathlib.Data.List.Pairwise
import Mathlib.Tactic.SplitIfs
import Rehearsal.Http.Request
import Rehearsal.Proofs.Text.LetterCase

/-! Headers as a mapping whose keys ignore case. Of the headers of one name the last one counts:
setting headers puts what is set over what was there, and leaves no name twice. Where no name is
there twice, what counts for a name is all that is there under it. -/

namespace Rehearsal

namespace Text

theorem sameIgnoringCase_iff {a b : String} : sameIgnoringCase a b = true ↔ lower a = lower b :=
  beq_iff_eq

theorem sameIgnoringCase_comm (a b : String) : sameIgnoringCase a b = sameIgnoringCase b a :=
  BEq.comm

theorem sameIgnoringCase_congr {a b : String} (h : sameIgnoringCase a b = true) (c : String) :
    sameIgnoringCase a c = sameIgnoringCase b c := by
  simp only [sameIgnoringCase, sameIgnoringCase_iff.mp h]

theorem sameIgnoringCase_lower (a b : String) :
    sameIgnoringCase (lower a) b = sameIgnoringCase a b := by
  simp only [sameIgnoringCase, lower_lower]

theorem sameIgnoringCase_ascii {a b : String} (ha : IsAscii a) (hb : IsAscii b) :
    sameIgnoringCase a b = true ↔ a.toList.map Char.toLower = b.toList.map Char.toLower := by
  rw [sameIgnoringCase_iff, lower_ascii ha, lower_ascii hb, String.ofList_inj]

end Text

namespace Headers

/-- The headers of a name, in whatever spelling. -/
def under (headers : Headers) (name : String) : Headers :=
  headers.filter fun header => Text.sameIgnoringCase header.1 name

/-- The last header of a name, in whatever spelling. -/
def last? (headers : Headers) (name : String) : Option (String × Value) :=
  headers.reverse.find? fun header => Text.sameIgnoringCase header.1 name

def Distinct (headers : Headers) : Prop :=
  headers.Pairwise fun a b => Text.sameIgnoringCase a.1 b.1 = false

instance (headers : Headers) : Decidable headers.Distinct :=
  inferInstanceAs (Decidable (List.Pairwise _ _))

/-- The header of a name in the first of several layers that has one. -/
def firstOf (layers : List Headers) (name : String) : Option (String × Value) :=
  layers.findSome? (·.last? name)

theorem firstOf_nil (name : String) : firstOf [] name = none := rfl

theorem firstOf_cons (layer : Headers) (layers : List Headers) (name : String) :
    firstOf (layer :: layers) name = (layer.last? name).or (firstOf layers name) := by
  rw [firstOf, List.findSome?_cons]
  cases layer.last? name <;> rfl

variable (headers : Headers)

theorem last?_append (more : Headers) (name : String) :
    (headers ++ more).last? name = (more.last? name).or (headers.last? name) := by
  simp only [last?, List.reverse_append, List.find?_append]

theorem last?_singleton (header : String × Value) (name : String) :
    last? [header] name =
      if Text.sameIgnoringCase header.1 name then some header else none := by
  simp only [last?, List.reverse_singleton, List.find?_singleton]

theorem last?_cons (header : String × Value) (name : String) :
    last? (header :: headers) name =
      (headers.last? name).or
        (if Text.sameIgnoringCase header.1 name then some header else none) := by
  rw [← last?_singleton, ← last?_append]
  rfl

theorem last?_eq (name : String) : headers.last? name = (headers.under name).getLast? := by
  rw [last?, under, ← List.head?_filter, List.filter_reverse, List.head?_reverse]

theorem under_set (name : String) (value : Value) (other : String) :
    (headers.set name value).under other =
      if Text.sameIgnoringCase name other then [(name, value)] else headers.under other := by
  simp only [set, under, List.filter_append, List.filter_singleton, List.filter_filter]
  split_ifs with hother
  · have hnone : ∀ header : String × Value, (Text.sameIgnoringCase header.1 other &&
        !Text.sameIgnoringCase header.1 name) = false := by
      intro header
      rw [Text.sameIgnoringCase_comm header.1 name, Text.sameIgnoringCase_congr hother,
        Text.sameIgnoringCase_comm other, Bool.and_not_self]
    simp [hnone, hother]
  · -- What is filtered out has the spelling set, so it is not of the other name.
    have hkept : ∀ header : String × Value, (Text.sameIgnoringCase header.1 other &&
        !Text.sameIgnoringCase header.1 name) = Text.sameIgnoringCase header.1 other := by
      intro header
      cases hname : Text.sameIgnoringCase header.1 name with
      | false => simp
      | true => simp [Text.sameIgnoringCase_congr hname other, hother]
    simp [hkept, hother]

theorem under_setAll (more : Headers) (name : String) :
    (headers.setAll more).under name =
      (more.last? name).elim (headers.under name) fun header => [header] := by
  induction more generalizing headers with
  | nil => rfl
  | cons header rest ih =>
    have hstep : (headers.setAll (header :: rest)).under name =
        (last? rest name).elim ((headers.set header.1 header.2).under name) fun header =>
          [header] := ih _
    rw [hstep, under_set, last?_cons]
    cases last? rest name with
    | some found => rfl
    | none => split_ifs <;> rfl

theorem last?_setAll (more : Headers) (name : String) :
    (headers.setAll more).last? name = (more.last? name).or (headers.last? name) := by
  rw [last?_eq, under_setAll]
  cases hmore : more.last? name with
  | some header => rfl
  | none => exact (last?_eq headers name).symm

/-! Setting several headers, of which some are set before. -/

def others (headers : Headers) (name : String) : Headers :=
  headers.filter fun header => !Text.sameIgnoringCase header.1 name

theorem set_eq (name : String) (value : Value) :
    headers.set name value = headers.others name ++ [(name, value)] := rfl

theorem others_others (name : String) : (headers.others name).others name = headers.others name := by
  simp [others]

theorem others_set (name : String) (value : Value) (other : String) :
    (headers.set name value).others other =
      if Text.sameIgnoringCase name other then headers.others other
      else (headers.others other).set name value := by
  rw [set_eq, set_eq, others, List.filter_append, ← others]
  have hcomm : (headers.others name).others other = (headers.others other).others name := by
    simp only [others, List.filter_filter, Bool.and_comm]
  split_ifs with hname
  · -- the headers of both names are the same ones
    have hsame : headers.others name = headers.others other := by
      refine List.filter_congr fun header _ => ?_
      rw [Text.sameIgnoringCase_comm header.1 name, Text.sameIgnoringCase_congr hname,
        Text.sameIgnoringCase_comm other]
    rw [hsame, others_others]
    simp [hname]
  · rw [hcomm]
    simp [hname]

theorem set_of_others {more : Headers} {name : String}
    (h : headers.others name = more.others name) (value : Value) :
    headers.set name value = more.set name value := by
  rw [set_eq, set_eq, h]

theorem others_setAll (more : Headers) (name : String) :
    (headers.setAll more).others name = (headers.others name).setAll (more.others name) := by
  induction more generalizing headers with
  | nil => rfl
  | cons header rest ih =>
    have hstep : (headers.setAll (header :: rest)).others name =
        ((headers.set header.1 header.2).others name).setAll (others rest name) := ih _
    rw [hstep, others_set]
    split_ifs with hname
    · simp [others, hname]
    · simp [others, hname, setAll]

theorem setAll_append (more last : Headers) :
    headers.setAll (more ++ last) = (headers.setAll more).setAll last :=
  List.foldl_append

theorem setAll_set (more : Headers) (name : String) (value : Value) :
    headers.setAll (more.set name value) = (headers.setAll more).set name value := by
  rw [set_eq more, setAll_append]
  refine set_of_others _ ?_ value
  rw [others_setAll, others_setAll, others_others]

theorem setAll_setAll (pairs more : Headers) :
    headers.setAll (pairs.setAll more) = (headers.setAll pairs).setAll more := by
  induction more generalizing pairs with
  | nil => rfl
  | cons header rest ih =>
    have hstep : pairs.setAll (header :: rest) = (pairs.set header.1 header.2).setAll rest := rfl
    rw [hstep, ih, setAll_set]
    rfl

theorem setAll_again (more : Headers) :
    (headers.setAll more).setAll more = headers.setAll more := by
  induction more using List.reverseRecOn with
  | nil => rfl
  | append_singleton front header ih =>
    have hlast : ∀ base : Headers, base.setAll (front ++ [header]) =
        (base.setAll front).set header.1 header.2 := fun base => base.setAll_append front [header]
    have hself : Text.sameIgnoringCase header.1 header.1 = true := BEq.rfl
    rw [hlast, hlast]
    refine set_of_others _ ?_ _
    rw [others_setAll, others_set, if_pos hself, ← others_setAll, ih]

theorem filter_set {keep : String × Value → Bool} {name : String}
    (h : ∀ header, Text.sameIgnoringCase header.1 name = true → keep header = false)
    (value : Value) : (headers.set name value).filter keep = headers.filter keep := by
  have hself : keep (name, value) = false := h (name, value) BEq.rfl
  rw [set_eq, List.filter_append, List.filter_singleton, hself, cond_false, List.append_nil,
    others, List.filter_filter]
  refine List.filter_congr fun header _ => ?_
  cases hname : Text.sameIgnoringCase header.1 name with
  | false => simp
  | true => simp [h header hname]

theorem filter_setAll {keep : String × Value → Bool} (more : Headers)
    (h : ∀ header, (∃ other ∈ more, Text.sameIgnoringCase header.1 other.1 = true) →
      keep header = false) :
    (headers.setAll more).filter keep = headers.filter keep := by
  induction more generalizing headers with
  | nil => rfl
  | cons first rest ih =>
    have hstep : headers.setAll (first :: rest) = (headers.set first.1 first.2).setAll rest := rfl
    rw [hstep, ih _ fun header ⟨other, hother, hname⟩ =>
      h header ⟨other, List.mem_cons_of_mem _ hother, hname⟩]
    exact headers.filter_set (fun header hname => h header ⟨first, List.mem_cons_self, hname⟩) _

variable {headers}

theorem Distinct.set (h : headers.Distinct) (name : String) (value : Value) :
    (headers.set name value).Distinct := by
  refine List.pairwise_append.mpr ⟨h.filter _, List.pairwise_singleton _ _, ?_⟩
  intro header hheader last hlast
  obtain rfl := List.mem_singleton.mp hlast
  simpa using (List.mem_filter.mp hheader).2

theorem Distinct.setAll (h : headers.Distinct) (more : Headers) :
    (headers.setAll more).Distinct := by
  induction more generalizing headers with
  | nil => exact h
  | cons header rest ih => exact ih (h.set header.1 header.2)

theorem last?_eq_some {name : String} {header : String × Value}
    (h : headers.last? name = some header) :
    header ∈ headers ∧ Text.sameIgnoringCase header.1 name = true :=
  ⟨List.mem_reverse.mp (List.mem_of_find?_eq_some h), by simpa using List.find?_some h⟩

theorem Distinct.mem_iff (h : headers.Distinct) {name : String} {header : String × Value} :
    header ∈ headers ∧ Text.sameIgnoringCase header.1 name = true ↔
      headers.last? name = some header := by
  refine ⟨fun ⟨hmem, hname⟩ => ?_, last?_eq_some⟩
  have hsome : (headers.last? name).isSome = true :=
    List.find?_isSome.mpr ⟨header, List.mem_reverse.mpr hmem, hname⟩
  obtain ⟨other, hother⟩ := Option.isSome_iff_exists.mp hsome
  obtain ⟨hmem', hname'⟩ := last?_eq_some hother
  have hsymm : Std.Symm fun a b : String × Value => Text.sameIgnoringCase a.1 b.1 = false :=
    ⟨fun a b hab => (Text.sameIgnoringCase_comm b.1 a.1).trans hab⟩
  by_contra hne
  have hdiffer := List.Pairwise.forall h hmem hmem' fun heq => hne (heq ▸ hother)
  rw [Text.sameIgnoringCase_congr hname other.1, Text.sameIgnoringCase_comm, hname'] at hdiffer
  cases hdiffer

end Headers

end Rehearsal
