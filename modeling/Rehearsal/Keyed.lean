/-!
Values under keys, in the order in which the keys first came.

Putting a value under a key that is there leaves the key at its place. Main statements: what is put
is found, and nothing else changes.
-/

namespace Rehearsal

abbrev Keyed (K V : Type) := List (K × V)

namespace Keyed

variable {K V : Type} [DecidableEq K]

def get? (m : Keyed K V) (key : K) : Option V :=
  match m with
  | [] => none
  | (k, v) :: rest => if k = key then some v else get? rest key

def put (m : Keyed K V) (key : K) (value : V) : Keyed K V :=
  match m with
  | [] => [(key, value)]
  | (k, v) :: rest => if k = key then (k, value) :: rest else (k, v) :: put rest key value

def putAll (m : Keyed K V) (more : Keyed K V) : Keyed K V :=
  more.foldl (fun m entry => put m entry.1 entry.2) m

def erase (m : Keyed K V) (key : K) : Keyed K V := m.filter fun entry => entry.1 ≠ key

def keys (m : Keyed K V) : List K := m.map (·.1)

def has (m : Keyed K V) (key : K) : Bool := (get? m key).isSome

theorem get?_put_self (m : Keyed K V) (key : K) (value : V) :
    get? (put m key value) key = some value := by
  induction m with
  | nil => simp [put, get?]
  | cons entry rest ih =>
    obtain ⟨k, v⟩ := entry
    by_cases h : k = key <;> simp [put, get?, h, ih]

theorem get?_put_ne (m : Keyed K V) {key other : K} (value : V) (h : other ≠ key) :
    get? (put m key value) other = get? m other := by
  induction m with
  | nil => simp [put, get?, Ne.symm h]
  | cons entry rest ih =>
    obtain ⟨k, v⟩ := entry
    by_cases hk : k = key
    · simp [put, get?, hk, Ne.symm h]
    · simp only [put, hk, if_false, get?, ih]

theorem get?_put (m : Keyed K V) (key other : K) (value : V) :
    get? (put m key value) other = if other = key then some value else get? m other := by
  split
  · subst key
    exact get?_put_self m other value
  · exact get?_put_ne m value ‹_›

theorem mem_put {m : Keyed K V} {key : K} {value : V} {entry : K × V}
    (h : entry ∈ put m key value) : entry ∈ m ∨ entry = (key, value) := by
  induction m with
  | nil => exact .inr (by simpa [put] using h)
  | cons first rest ih =>
    obtain ⟨k, v⟩ := first
    simp only [put] at h
    split at h
    · subst key
      rcases List.mem_cons.mp h with rfl | h
      · exact .inr rfl
      · exact .inl (List.mem_cons_of_mem _ h)
    · rcases List.mem_cons.mp h with rfl | h
      · exact .inl List.mem_cons_self
      · exact (ih h).imp (List.mem_cons_of_mem _) id

theorem get?_erase_self (m : Keyed K V) (key : K) : get? (erase m key) key = none := by
  induction m with
  | nil => rfl
  | cons entry rest ih =>
    obtain ⟨k, v⟩ := entry
    simp only [erase, ne_eq, decide_not] at ih
    by_cases h : k = key <;> simp [erase, get?, h, ih]

end Keyed

end Rehearsal
