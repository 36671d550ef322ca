import Mathlib.Data.List.Induction
import Rehearsal.Proofs.Http.Headers
import Rehearsal.Proofs.Keyed

/-! Headers given one after the other under names of any spelling. They are merged by exact spelling,
each spelling staying where it first came, and are then set one by one, which ignores case. So what
counts for a name is not what was given for it last but what was given last under its newest
spelling; the two are the same where what was given last has the newest spelling. -/

namespace Rehearsal.Headers

/-- Headers merged by exact spelling. -/
def merged (given : Headers) : Headers := Keyed.putAll [] given

/-- The spelling of a name that came up last: none that is given after it first was is new. -/
def Newest (given : Headers) (name spelling : String) : Prop :=
  Text.sameIgnoringCase spelling name = true ∧
    ∃ before value after, given = before ++ (spelling, value) :: after ∧
      spelling ∉ before.map (·.1) ∧
      ∀ header ∈ after, Text.sameIgnoringCase header.1 name = true →
        header.1 = spelling ∨ header.1 ∈ before.map (·.1)

variable {given : Headers} {name : String}

theorem nodup_merged (given : Headers) : ((merged given).map (·.1)).Nodup :=
  Keyed.nodup_putAll (m := []) List.nodup_nil given

theorem merged_append (given more : Headers) :
    merged (merged given ++ more) = merged (given ++ more) := by
  have hsame : Keyed.putAll [] (merged given) = merged given :=
    Keyed.putAll_new (by simpa using nodup_merged given)
  rw [merged, Keyed.putAll_append, hsame, merged, merged, Keyed.putAll_append]

theorem get?_merged (given : Headers) (spelling : String) :
    Keyed.get? (merged given) spelling = Keyed.get? given.reverse spelling := by
  rw [merged, Keyed.get?_putAll_last]
  exact Option.or_none

theorem mem_map_merged {spelling : String} :
    spelling ∈ (merged given).map (·.1) ↔ spelling ∈ given.map (·.1) := by
  rw [merged, Keyed.mem_map_putAll]
  simp

theorem last?_spelling (headers : Headers) (name : String) :
    (headers.last? name).map (·.1) =
      (headers.map (·.1)).reverse.find? (Text.sameIgnoringCase · name) := by
  rw [last?, ← List.map_reverse, List.find?_map]
  rfl

theorem exists_newest (h : (given.last? name).isSome = true) :
    ∃ spelling, given.Newest name spelling := by
  induction given using List.reverseRecOn with
  | nil => cases h
  | append_singleton front header ih =>
    by_cases hname : Text.sameIgnoringCase header.1 name = true
    · by_cases hold : header.1 ∈ front.map (·.1)
      · -- The spelling is an old one, so the newest spelling stays what it was.
        obtain ⟨other, hother, hspelling⟩ := List.mem_map.mp hold
        have hsome : (last? front name).isSome = true :=
          List.find?_isSome.mpr ⟨other, List.mem_reverse.mpr hother, hspelling ▸ hname⟩
        obtain ⟨spelling, hsame, before, value, after, rfl, hfirst, hafter⟩ := ih hsome
        refine ⟨spelling, hsame, before, value, after ++ [header], by simp, hfirst, ?_⟩
        intro found hfound hmatch
        rcases List.mem_append.mp hfound with hfound | hfound
        · exact hafter found hfound hmatch
        obtain rfl := List.mem_singleton.mp hfound
        simp only [List.map_append, List.map_cons, List.mem_append, List.mem_cons] at hold
        rcases hold with hold | hold | hold
        · exact .inr hold
        · exact .inl hold
        obtain ⟨later, hlater, hlaterSpelling⟩ := List.mem_map.mp hold
        rw [← hlaterSpelling] at hmatch ⊢
        exact hafter later hlater hmatch
      · exact ⟨header.1, hname, front, header.2, [], rfl, hold, nofun⟩
    · rw [last?_append, last?_singleton, if_neg hname, Option.none_or] at h
      obtain ⟨spelling, hsame, before, value, after, rfl, hfirst, hafter⟩ := ih h
      refine ⟨spelling, hsame, before, value, after ++ [header], by simp, hfirst, ?_⟩
      intro found hfound hmatch
      rcases List.mem_append.mp hfound with hfound | hfound
      · exact hafter found hfound hmatch
      · obtain rfl := List.mem_singleton.mp hfound
        exact absurd hmatch hname

theorem find?_putAll {merged after : Headers} {spelling : String}
    (hlast : (merged.map (·.1)).reverse.find? (Text.sameIgnoringCase · name) = some spelling)
    (hafter : ∀ header ∈ after, Text.sameIgnoringCase header.1 name = true →
      header.1 ∈ merged.map (·.1)) :
    ((Keyed.putAll merged after).map (·.1)).reverse.find? (Text.sameIgnoringCase · name) =
      some spelling := by
  induction after generalizing merged with
  | nil => exact hlast
  | cons header rest ih =>
    have hstep : Keyed.putAll merged (header :: rest) =
        Keyed.putAll (Keyed.put merged header.1 header.2) rest := rfl
    rw [hstep]
    refine ih ?_ ?_
    · rw [Keyed.map_put]
      split_ifs with hold
      · exact hlast
      · have hother : ¬ Text.sameIgnoringCase header.1 name = true :=
          fun hname => hold (hafter header List.mem_cons_self hname)
        simpa [List.find?_cons, hother] using hlast
    · intro later hlater hname
      have hthere := hafter later (List.mem_cons_of_mem _ hlater) hname
      rw [Keyed.map_put]
      split_ifs
      · exact hthere
      · exact List.mem_append_left _ hthere

/-- What counts for a name is what was given last under its newest spelling. -/
theorem Newest.last?_merged {spelling : String} (h : given.Newest name spelling) :
    ∃ value, Keyed.get? given.reverse spelling = some value ∧
      (merged given).last? name = some (spelling, value) := by
  obtain ⟨hname, before, first, after, rfl, hfirst, hafter⟩ := h
  have hnew : spelling ∉ (merged before).map (·.1) := fun hmem => hfirst (mem_map_merged.mp hmem)
  have hsplit : merged (before ++ (spelling, first) :: after) =
      Keyed.putAll (merged before ++ [(spelling, first)]) after := by
    rw [merged, Keyed.putAll_append, ← Keyed.put_new first hnew]
    rfl
  have hspelling : (last? (merged (before ++ (spelling, first) :: after)) name).map (·.1) =
      some spelling := by
    rw [last?_spelling, hsplit]
    refine find?_putAll ?_ fun header hheader hmatch => ?_
    · simp [hname]
    · rw [List.map_append, List.mem_append]
      rcases hafter header hheader hmatch with hsame | hold
      · exact .inr (by simp [hsame])
      · exact .inl (mem_map_merged.mpr hold)
  obtain ⟨header, hheader, rfl⟩ := Option.map_eq_some_iff.mp hspelling
  have hthere := (Keyed.get?_eq_some_iff (nodup_merged _)).mpr (last?_eq_some hheader).1
  rw [get?_merged] at hthere
  exact ⟨header.2, hthere, hheader⟩

theorem get?_of_last? {header : String × Value} (h : given.last? name = some header) :
    Keyed.get? given.reverse header.1 = some header.2 := by
  rw [last?] at h
  generalize given.reverse = reversed at h ⊢
  induction reversed with
  | nil => cases h
  | cons first rest ih =>
    obtain ⟨spelling, value⟩ := first
    rw [List.find?_cons] at h
    split at h
    · obtain rfl := Option.some.inj h
      simp [Keyed.get?]
    · rename_i hother
      have hne : spelling ≠ header.1 := by
        rintro rfl
        have hname := List.find?_some h
        simp only at hother hname
        rw [hname] at hother
        cases hother
      rw [Keyed.get?, if_neg hne]
      exact ih h

end Rehearsal.Headers
