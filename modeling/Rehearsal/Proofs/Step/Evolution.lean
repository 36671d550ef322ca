import Rehearsal.Proofs.Step.Timeout
import Rehearsal.Proofs.Value.Equality

/-! Changed copies of changed copies. Every change of a step checks and normalises all its fields
again, so the laws of changes rest on that nothing is checked or normalised twice with another
outcome: two changes in turn are one, in either order if they are about different fields, and no
change at all gives the step itself. A step made with a timeout that vanishes takes no change but
one of its timeout. -/

namespace Rehearsal

namespace StepChange

variable {variant : Variant} {x y : StepChange} {a b changes : List StepChange}

/-- What a field holds after all changes, one after the other. -/
def ontoAll (variant : Variant) (changes : List StepChange) (content : StepChange) : StepChange :=
  changes.foldl (fun content change => change.onto variant content) content

/-- The changes of two sets, where the second goes before the first. -/
def union (a b : List StepChange) : List StepChange :=
  (a.filter fun change => !(b.map name).contains change.name) ++ b

theorem kept_name (variant : Variant) (change : StepChange) :
    (change.kept variant).name = change.name := by
  cases change with
  | headers entries =>
    rw [kept]
    split <;> rfl
  | _ => rfl

theorem onto_name (change : StepChange) : (change.onto variant x).name = x.name := by
  rw [onto]
  split_ifs with h
  · rw [kept_name, h.2]
  · rfl

theorem onto_of_ne {change : StepChange} (h : change.name ≠ x.name) :
    change.onto variant x = x := if_neg fun hboth => h hboth.2.symm

theorem ontoAll_name (changes : List StepChange) :
    (ontoAll variant changes x).name = x.name := by
  induction changes generalizing x with
  | nil => rfl
  | cons change changes ih => exact ih.trans (onto_name change)

theorem ontoAll_append (variant : Variant) (a b : List StepChange) (x : StepChange) :
    ontoAll variant (a ++ b) x = ontoAll variant b (ontoAll variant a x) := List.foldl_append

theorem ontoAll_unwritten (h : ∀ change ∈ changes,
    ¬ (change.applies variant = true ∧ x.name = change.name)) :
    ontoAll variant changes x = x := by
  induction changes with
  | nil => rfl
  | cons change changes ih =>
    rw [List.forall_mem_cons] at h
    rw [ontoAll, List.foldl_cons, onto, if_neg h.1]
    exact ih h.2

theorem ontoAll_of_absent (h : ∀ change ∈ changes, change.name ≠ x.name) :
    ontoAll variant changes x = x :=
  ontoAll_unwritten fun change hchange hwrites => h change hchange hwrites.2.symm

theorem ontoAll_written (h : ∃ change ∈ changes,
    change.applies variant = true ∧ x.name = change.name) (hxy : x.name = y.name) :
    ontoAll variant changes x = ontoAll variant changes y := by
  induction changes generalizing x y with
  | nil =>
    obtain ⟨_, hnone, -⟩ := h
    cases hnone
  | cons change changes ih =>
    simp only [ontoAll, List.foldl_cons]
    by_cases hwrites : change.applies variant = true ∧ x.name = change.name
    · rw [onto, onto, if_pos hwrites, if_pos (hxy ▸ hwrites)]
    · rw [onto, onto, if_neg hwrites, if_neg (hxy ▸ hwrites)]
      obtain ⟨found, hfound, hfits⟩ := h
      rcases List.mem_cons.mp hfound with rfl | hlater
      · exact absurd hfits hwrites
      · exact ih ⟨found, hlater, hfits⟩ hxy

theorem ontoAll_cases (changes : List StepChange) (hxy : x.name = y.name) :
    ontoAll variant changes x = ontoAll variant changes y ∨
      ontoAll variant changes x = x ∧ ontoAll variant changes y = y := by
  by_cases h : ∃ change ∈ changes, change.applies variant = true ∧ x.name = change.name
  · exact .inl (ontoAll_written h hxy)
  · have hnone : ∀ change ∈ changes, ¬ (change.applies variant = true ∧ x.name = change.name) :=
      fun change hchange hwrites => h ⟨change, hchange, hwrites⟩
    exact .inr ⟨ontoAll_unwritten hnone, ontoAll_unwritten (hxy ▸ hnone)⟩

theorem ontoAll_filter (keep : StepChange → Bool)
    (h : ∀ change ∈ a, change.name = x.name → keep change = true) :
    ontoAll variant (a.filter keep) x = ontoAll variant a x := by
  induction a generalizing x with
  | nil => rfl
  | cons change a ih =>
    rw [List.forall_mem_cons] at h
    rw [List.filter_cons]
    split_ifs with hkeep
    · exact ih fun other hother hname => h.2 other hother (hname.trans (onto_name change))
    · rw [ih h.2, ontoAll, ontoAll, List.foldl_cons,
        onto_of_ne fun hname => hkeep (h.1 hname)]

theorem ontoAll_union (x : StepChange) (h : ∀ change ∈ b, change.applies variant = true) :
    ontoAll variant (union a b) x = ontoAll variant (a ++ b) x := by
  rw [union, ontoAll_append, ontoAll_append]
  by_cases hpresent : ∃ change ∈ b, change.name = x.name
  · obtain ⟨change, hchange, hname⟩ := hpresent
    refine ontoAll_written ⟨change, hchange, h change hchange, ?_⟩ ?_
    · rw [ontoAll_name, hname]
    · rw [ontoAll_name, ontoAll_name]
  · have hkeep : ∀ change ∈ a, change.name = x.name →
        (!(b.map name).contains change.name) = true := by
      intro change _ hname
      simp only [Bool.not_eq_true', List.contains_eq_mem, decide_eq_false_iff_not, List.mem_map,
        hname]
      exact hpresent
    rw [ontoAll_filter _ hkeep]

theorem absent_of_disjoint (h : ∀ change ∈ a, ∀ other ∈ b, change.name ≠ other.name)
    (field : String) :
    (∀ change ∈ a, change.name ≠ field) ∨ ∀ other ∈ b, other.name ≠ field := by
  by_cases hfirst : ∀ change ∈ a, change.name ≠ field
  · exact .inl hfirst
  · push Not at hfirst
    obtain ⟨change, hchange, hname⟩ := hfirst
    exact .inr fun other hother hsame => h change hchange other hother (hname.trans hsame.symm)

theorem ontoAll_comm (h : ∀ change ∈ a, ∀ other ∈ b, change.name ≠ other.name) (x : StepChange) :
    ontoAll variant (a ++ b) x = ontoAll variant (b ++ a) x := by
  rw [ontoAll_append, ontoAll_append]
  rcases absent_of_disjoint h x.name with hfirst | hsecond
  · have hlater : ∀ change ∈ a, change.name ≠ (ontoAll variant b x).name := by
      rw [ontoAll_name]
      exact hfirst
    rw [ontoAll_of_absent hfirst, ontoAll_of_absent hlater]
  · have hlater : ∀ other ∈ b, other.name ≠ (ontoAll variant a x).name := by
      rw [ontoAll_name]
      exact hsecond
    rw [ontoAll_of_absent hsecond, ontoAll_of_absent hlater]

end StepChange

section

variable {draft : StepDraft} {s one made t : Step} {a b changes : List StepChange}

theorem StepDraft.contents_setAll (draft : StepDraft) (changes : List StepChange) :
    (draft.setAll changes).contents =
      draft.contents.map (StepChange.ontoAll draft.variant changes) := by
  induction changes generalizing draft with
  | nil => exact (List.map_id _).symm
  | cons change changes ih =>
    have hset := ih (draft.set change)
    rw [variant_set, contents_set, List.map_map] at hset
    exact hset

theorem StepDraft.setAll_append (draft : StepDraft) (a b : List StepChange) :
    draft.setAll (a ++ b) = (draft.setAll a).setAll b := List.foldl_append

theorem StepDraft.build_congr (draft : StepDraft)
    (h : ∀ x, StepChange.ontoAll draft.variant a x = StepChange.ontoAll draft.variant b x) :
    (draft.setAll a).build = .ok t ↔ (draft.setAll b).build = .ok t := by
  simp only [build_iff, variant_setAll, contents_setAll, List.map_congr_left fun x _ => h x]

theorem refuseUnknown_iff (owner : String) (fields names : List String) :
    refuseUnknown owner fields names = .ok () ↔ ∀ name ∈ names, name ∈ fields := by
  rw [← unknownFields_iff, refuseUnknown]
  cases unknownFields fields names <;> simp

theorem Step.evolve_iff : s.evolve changes = .ok t ↔
    (∀ change ∈ changes, change.name ∈ s.variant.fieldNames) ∧
      (s.draft.setAll changes).build = .ok t := by
  have hknown := refuseUnknown_iff s.variant.name s.variant.fieldNames (changes.map (·.name))
  rw [List.forall_mem_map] at hknown
  rw [evolve, ← hknown]
  cases refuseUnknown s.variant.name s.variant.fieldNames (changes.map (·.name)) <;> simp

/-! A step in place of the draft that it was built of. -/

theorem StepDraft.build_through (h : draft.build = .ok s)
    (ht : (s.draft.setAll changes).build = .ok t) : (draft.setAll changes).build = .ok t := by
  have hvariant := variant_build h
  rw [build_iff, variant_setAll, contents_setAll, Step.variant_draft, hvariant] at ht
  rw [build_iff, variant_setAll, contents_setAll]
  refine ⟨ht.1, ?_⟩
  have hfields := ht.2
  rw [List.forall₂_map_left_iff] at hfields ⊢
  -- a field that is written does not depend on what it held, one that is not is settled already
  refine forall₂_comp (build_iff.mp h).2 hfields fun x y z hxy hyz => ?_
  rcases StepChange.ontoAll_cases changes (StepChange.settle_name hxy).symm with heq | ⟨hx, hy⟩
  · rwa [heq]
  · rw [hy] at hyz
    rwa [hx, StepChange.settle_unique hxy hyz]

theorem StepDraft.build_again (h : draft.build = .ok s) (htime : s.HasTime) :
    s.draft.build = .ok s := by
  obtain ⟨hvariant, hfields⟩ := build_iff.mp h
  refine build_iff.mpr ⟨(Step.variant_draft s).symm, List.forall₂_same.mpr fun y hy => ?_⟩
  rw [Step.variant_draft, hvariant]
  obtain ⟨x, -, hxy⟩ := exists_left_of_forall₂ hfields hy
  rcases StepChange.settle_again hxy with hsame | ⟨-, hname⟩
  · exact hsame
  · rw [timeout_of_mem hy hname, Step.draft_timeout, StepChange.settle_timeout]
    exact if_pos htime

theorem StepDraft.build_after (h : draft.build = .ok s) (htime : s.HasTime)
    (ht : (draft.setAll changes).build = .ok t) : (s.draft.setAll changes).build = .ok t := by
  have hvariant := variant_build h
  have hagain := (build_iff.mp (build_again h htime)).2
  rw [Step.variant_draft, hvariant, List.forall₂_same] at hagain
  have hback : List.Forall₂ (fun y x => y.settle draft.variant = some y ∧
      x.settle draft.variant = some y) s.draft.contents draft.contents :=
    (List.forall₂_and_left _ _).mpr ⟨hagain, (build_iff.mp h).2.flip⟩
  rw [build_iff, variant_setAll, contents_setAll] at ht
  rw [build_iff, variant_setAll, contents_setAll, Step.variant_draft, hvariant]
  refine ⟨ht.1, ?_⟩
  have hfields := ht.2
  rw [List.forall₂_map_left_iff] at hfields ⊢
  refine forall₂_comp hback hfields fun y x z hxy hxz => ?_
  rcases StepChange.ontoAll_cases changes (StepChange.settle_name hxy.2) with heq | ⟨hy, hx⟩
  · rwa [heq]
  · rw [hx] at hxz
    rw [hy, hxy.1, ← hxy.2, hxz]

theorem StepDraft.timeout_setAll (draft : StepDraft)
    (h : ∀ change ∈ changes, change.name ≠ "timeout") :
    (draft.setAll changes).timeout = draft.timeout := by
  have hmem : StepChange.timeout draft.timeout ∈ (draft.setAll changes).contents := by
    rw [contents_setAll]
    exact List.mem_map.mpr ⟨_, draft.timeout_mem, StepChange.ontoAll_of_absent h⟩
  exact (StepChange.timeout.inj (timeout_of_mem hmem rfl)).symm

namespace Step

theorem not_vanishes (s : Step) : ¬ s.draft.timeout.Vanishes := by
  rw [draft_timeout]
  exact id

theorem hasTime_of_evolve (h : s.evolve changes = .ok t)
    (hother : ∀ change ∈ changes, change.name ≠ "timeout") : s.HasTime ∧ t.HasTime := by
  have hseconds := StepDraft.seconds_build (build_of_evolve h)
  rw [StepDraft.timeout_setAll _ hother, draft_timeout] at hseconds
  have hsame := Draft.seconds_float hseconds
  rw [hsame] at hseconds
  have htime : s.HasTime := (Draft.seconds_iff _ _).mp hseconds
  exact ⟨htime, by rwa [HasTime, hsame]⟩

theorem evolve_append (h : s.evolve a = .ok one) (h' : one.evolve b = .ok t) :
    s.evolve (a ++ b) = .ok t := by
  obtain ⟨ha, hone⟩ := evolve_iff.mp h
  obtain ⟨hb, ht⟩ := evolve_iff.mp h'
  rw [variant_evolve h] at hb
  refine evolve_iff.mpr ⟨List.forall_mem_append.mpr ⟨ha, hb⟩, ?_⟩
  rw [StepDraft.setAll_append]
  exact StepDraft.build_through hone ht

theorem exists_build_alone (hs : s.draft.build = .ok s)
    (hdisjoint : ∀ change ∈ a, ∀ other ∈ b, change.name ≠ other.name)
    (ht : (s.draft.setAll (a ++ b)).build = .ok t) :
    ∃ made, (s.draft.setAll b).build = .ok made := by
  have hself := (StepDraft.build_iff.mp hs).2
  rw [List.forall₂_same] at hself
  have hboth := (StepDraft.build_iff.mp ht).2.flip
  rw [StepDraft.variant_setAll] at hboth
  refine StepDraft.exists_build fun x hx => ?_
  rw [StepDraft.contents_setAll] at hx
  obtain ⟨y, hy, rfl⟩ := List.mem_map.mp hx
  rw [StepDraft.variant_setAll]
  -- a field that the first set leaves alone is written by both sets as by the second
  rcases StepChange.absent_of_disjoint hdisjoint y.name with hfirst | hsecond
  · have hmem : StepChange.ontoAll s.draft.variant b y ∈ (s.draft.setAll (a ++ b)).contents := by
      rw [StepDraft.contents_setAll]
      refine List.mem_map.mpr ⟨y, hy, ?_⟩
      rw [StepChange.ontoAll_append, StepChange.ontoAll_of_absent hfirst]
    obtain ⟨z, -, hz⟩ := exists_left_of_forall₂ hboth hmem
    exact ⟨z, hz⟩
  · rw [StepChange.ontoAll_of_absent hsecond]
    exact ⟨y, hself y hy⟩

theorem hasTime_alone (hdisjoint : ∀ change ∈ a, ∀ other ∈ b, change.name ≠ other.name)
    (hmade : (s.draft.setAll b).build = .ok made) (ht : (s.draft.setAll (b ++ a)).build = .ok t)
    (htime : t.HasTime) : made.HasTime := by
  rw [StepDraft.hasTime_build hmade]
  rw [StepDraft.hasTime_build ht] at htime
  rcases StepChange.absent_of_disjoint hdisjoint "timeout" with hfirst | hsecond
  · rwa [StepDraft.setAll_append, StepDraft.timeout_setAll _ hfirst] at htime
  · rw [StepDraft.timeout_setAll _ hsecond]
    exact s.not_vanishes

/-- Of two sets of changes about different fields, the other order leads to the same copy, just if
neither the step nor the copy has lost its timeout. -/
theorem evolve_swap (h : draft.build = .ok s)
    (hdisjoint : ∀ change ∈ a, ∀ other ∈ b, change.name ≠ other.name)
    (hone : s.evolve a = .ok one) (ht : one.evolve b = .ok t) :
    (∃ made, s.evolve b = .ok made ∧ made.evolve a = .ok t) ↔ s.HasTime ∧ t.HasTime := by
  constructor
  · rintro ⟨made, hmade, hback⟩
    -- whichever set leaves the timeout alone was applied to the step in one order and last in the
    -- other
    rcases StepChange.absent_of_disjoint hdisjoint "timeout" with hfirst | hsecond
    · exact ⟨(hasTime_of_evolve hone hfirst).1, (hasTime_of_evolve hback hfirst).2⟩
    · exact ⟨(hasTime_of_evolve hmade hsecond).1, (hasTime_of_evolve ht hsecond).2⟩
  · rintro ⟨htime, htime'⟩
    obtain ⟨hknown, hboth⟩ := evolve_iff.mp (evolve_append hone ht)
    rw [List.forall_mem_append] at hknown
    have hswapped : (s.draft.setAll (b ++ a)).build = .ok t :=
      (s.draft.build_congr (StepChange.ontoAll_comm hdisjoint)).mp hboth
    obtain ⟨made, hmade⟩ := exists_build_alone (StepDraft.build_again h htime) hdisjoint hboth
    have hevolve : s.evolve b = .ok made := evolve_iff.mpr ⟨hknown.2, hmade⟩
    refine ⟨made, hevolve, evolve_iff.mpr ⟨?_, ?_⟩⟩
    · rw [variant_evolve hevolve]
      exact hknown.1
    · rw [StepDraft.setAll_append] at hswapped
      exact StepDraft.build_after hmade
        (hasTime_alone hdisjoint hmade (StepDraft.setAll_append .. ▸ hswapped) htime') hswapped

theorem agree_self (contents : List Value) : agree contents contents = true := by
  induction contents with
  | nil => rfl
  | cons content contents ih =>
    rw [agree, (Value.identical_iff content content).mpr rfl, ih]
    rfl

theorem same_self (s : Step) : s.same s = true := by
  simp [same, agree_self]

end Step

end

end Rehearsal
