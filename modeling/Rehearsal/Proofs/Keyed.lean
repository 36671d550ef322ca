import Mathlib.Data.List.Nodup
import Mathlib.Tactic.SplitIfs
import Rehearsal.Keyed

/-! Values under keys as mappings: what is found under a key after several were put, and that a key
which occurs once goes on to occur once. Two mappings in which no key occurs twice and under every
key the same is found differ in the order of their entries at most. -/

namespace Rehearsal.Keyed

variable {K V : Type} [DecidableEq K]

theorem get?_append (m more : Keyed K V) (key : K) :
    get? (m ++ more) key = (get? m key).or (get? more key) := by
  induction m with
  | nil => rfl
  | cons entry rest ih =>
    obtain ⟨k, v⟩ := entry
    by_cases h : k = key <;> simp [get?, h, ih]

theorem isSome_get?_iff {m : Keyed K V} {key : K} :
    (get? m key).isSome = true ↔ key ∈ m.map (·.1) := by
  induction m with
  | nil => simp [get?]
  | cons entry rest ih =>
    by_cases hkey : entry.1 = key <;> simp [get?, hkey, ih, @eq_comm _ key]

theorem get?_eq_none {m : Keyed K V} {key : K} (h : key ∉ m.map (·.1)) : get? m key = none := by
  rw [← Option.not_isSome_iff_eq_none, isSome_get?_iff]
  exact h

theorem get?_eq_some_iff {m : Keyed K V} (hd : (m.map (·.1)).Nodup) {key : K} {value : V} :
    get? m key = some value ↔ (key, value) ∈ m := by
  induction m with
  | nil => simp [get?]
  | cons entry rest ih =>
    obtain ⟨k, v⟩ := entry
    obtain ⟨hk, hd⟩ := List.nodup_cons.mp hd
    by_cases h : k = key
    · subst h
      have hrest : (k, value) ∉ rest := fun hmem => hk (List.mem_map.mpr ⟨_, hmem, rfl⟩)
      simp [get?, hrest, eq_comm]
    · simp [get?, h, Ne.symm h, ih hd]

theorem filter_key {m : Keyed K V} (hd : (m.map (·.1)).Nodup) (key : K) :
    m.filter (fun entry => entry.1 = key) = ((get? m key).map fun value => (key, value)).toList := by
  induction m with
  | nil => rfl
  | cons entry rest ih =>
    obtain ⟨k, v⟩ := entry
    obtain ⟨hk, hd⟩ := List.nodup_cons.mp hd
    by_cases h : k = key
    · subst h
      have hrest : rest.filter (fun entry => entry.1 = k) = [] := by
        rw [ih hd, get?_eq_none hk]
        rfl
      simp [get?, hrest]
    · simp [get?, h, ih hd]

theorem get?_putAll (m : Keyed K V) {more : Keyed K V} (hd : (more.map (·.1)).Nodup) (key : K) :
    get? (putAll m more) key = (get? more key).or (get? m key) := by
  induction more generalizing m with
  | nil => rfl
  | cons entry rest ih =>
    obtain ⟨k, v⟩ := entry
    obtain ⟨hk, hd⟩ := List.nodup_cons.mp hd
    have hstep : get? (putAll m ((k, v) :: rest)) key = (get? rest key).or
        (if key = k then some v else get? m key) := by
      rw [← get?_put]
      exact ih (put m k v) hd
    rw [hstep]
    by_cases h : k = key
    · subst h
      simp [get?, get?_eq_none hk]
    · simp [get?, h, Ne.symm h]

theorem nodup_put {m : Keyed K V} (hd : (m.map (·.1)).Nodup) (key : K) (value : V) :
    ((put m key value).map (·.1)).Nodup := by
  induction m with
  | nil => simp [put]
  | cons entry rest ih =>
    obtain ⟨k, v⟩ := entry
    obtain ⟨hk, hrest⟩ := List.nodup_cons.mp hd
    by_cases h : k = key
    · simpa [put, h] using hd
    · have hnew : k ∉ (put rest key value).map (·.1) := by
        intro hmem
        obtain ⟨found, hfound, rfl⟩ := List.mem_map.mp hmem
        rcases mem_put hfound with hold | rfl
        · exact hk (List.mem_map.mpr ⟨found, hold, rfl⟩)
        · exact h rfl
      simpa only [put, if_neg h, List.map_cons, List.nodup_cons] using ⟨hnew, ih hrest⟩

theorem nodup_putAll {m : Keyed K V} (hd : (m.map (·.1)).Nodup) (more : Keyed K V) :
    ((putAll m more).map (·.1)).Nodup := by
  induction more generalizing m with
  | nil => exact hd
  | cons entry rest ih => exact ih (nodup_put hd entry.1 entry.2)

theorem mem_putAll {m more : Keyed K V} {entry : K × V} (h : entry ∈ putAll m more) :
    entry ∈ m ∨ entry ∈ more := by
  induction more generalizing m with
  | nil => exact .inl h
  | cons first rest ih =>
    rcases ih h with hold | hnew
    · rcases mem_put hold with hfirst | rfl
      · exact .inl hfirst
      · exact .inr List.mem_cons_self
    · exact .inr (List.mem_cons_of_mem _ hnew)

theorem map_put (m : Keyed K V) (key : K) (value : V) :
    (put m key value).map (·.1) =
      if key ∈ m.map (·.1) then m.map (·.1) else m.map (·.1) ++ [key] := by
  induction m with
  | nil => simp [put]
  | cons entry rest ih =>
    obtain ⟨k, v⟩ := entry
    by_cases h : k = key
    · simp [put, h]
    · simp only [put, if_neg h, List.map_cons, ih, List.mem_cons, Ne.symm h, false_or]
      split_ifs <;> rfl

theorem mem_map_putAll {m more : Keyed K V} {key : K} :
    key ∈ (putAll m more).map (·.1) ↔ key ∈ m.map (·.1) ∨ key ∈ more.map (·.1) := by
  induction more generalizing m with
  | nil => simp [putAll]
  | cons entry rest ih =>
    have hstep : key ∈ (putAll m (entry :: rest)).map (·.1) ↔
        key ∈ (put m entry.1 entry.2).map (·.1) ∨ key ∈ rest.map (·.1) := ih
    rw [hstep, map_put, List.map_cons, List.mem_cons]
    split_ifs with hold
    · constructor
      · exact Or.imp_right .inr
      · rintro (h | rfl | h)
        · exact .inl h
        · exact .inl hold
        · exact .inr h
    · rw [List.mem_append, List.mem_singleton, or_assoc]

theorem put_new {m : Keyed K V} {key : K} (value : V) (h : key ∉ m.map (·.1)) :
    put m key value = m ++ [(key, value)] := by
  induction m with
  | nil => rfl
  | cons entry rest ih =>
    obtain ⟨k, v⟩ := entry
    simp only [List.map_cons, List.mem_cons, not_or] at h
    simp [put, Ne.symm h.1, ih h.2]

theorem putAll_new {m more : Keyed K V} (hd : ((m ++ more).map (·.1)).Nodup) :
    putAll m more = m ++ more := by
  induction more generalizing m with
  | nil => exact (List.append_nil m).symm
  | cons entry rest ih =>
    have hnew : entry.1 ∉ m.map (·.1) := by
      rw [List.map_append, List.nodup_append] at hd
      exact fun hmem => hd.2.2 _ hmem _ List.mem_cons_self rfl
    have hput : put m entry.1 entry.2 = m ++ [entry] := put_new entry.2 hnew
    have hrest : putAll m (entry :: rest) = putAll (m ++ [entry]) rest :=
      congrArg (putAll · rest) hput
    rw [hrest, ih (by simpa using hd), List.append_assoc, List.singleton_append]

theorem putAll_append (m more last : Keyed K V) :
    putAll m (more ++ last) = putAll (putAll m more) last :=
  List.foldl_append

theorem get?_putAll_last (m more : Keyed K V) (key : K) :
    get? (putAll m more) key = (get? more.reverse key).or (get? m key) := by
  induction more generalizing m with
  | nil => rfl
  | cons entry rest ih =>
    have hstep : get? (putAll m (entry :: rest)) key =
        (get? rest.reverse key).or (get? (put m entry.1 entry.2) key) := ih _
    rw [hstep, get?_put, List.reverse_cons, get?_append, Option.or_assoc]
    by_cases h : entry.1 = key
    · simp [get?, h]
    · simp [get?, h, Ne.symm h]

theorem perm_of_get? {m m' : Keyed K V} (hd : (m.map (·.1)).Nodup) (hd' : (m'.map (·.1)).Nodup)
    (h : ∀ key, get? m key = get? m' key) : m.Perm m' := by
  refine (List.perm_ext_iff_of_nodup hd.of_map hd'.of_map).mpr ?_
  intro (key, value)
  rw [← get?_eq_some_iff hd, h, get?_eq_some_iff hd']

end Rehearsal.Keyed
