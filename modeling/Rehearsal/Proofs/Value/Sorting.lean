import Rehearsal.Proofs.Fallible
import Rehearsal.Value.Order

/-! Sorting by texts never fails, and gives the elements in another order. By other values it fails
only as a comparison does. -/

namespace Rehearsal.Value

variable {α : Type} {key : α → Value}

def TextKey (key : α → Value) (x : α) : Prop := ∃ s, key x = .text s

theorem isBelow_text (s t : String) : isBelow (.text s) (.text t) = .ok (decide (s < t)) := rfl

theorem TextKey.isBelow {x y : α} (hx : TextKey key x) (hy : TextKey key y) :
    ∃ below, (key x).isBelow (key y) = .ok below := by
  obtain ⟨s, hs⟩ := hx
  obtain ⟨t, ht⟩ := hy
  exact ⟨_, by rw [hs, ht, isBelow_text]⟩

theorem run_append (falling : Bool) (last : α) (xs : List α) (hlast : TextKey key last)
    (h : ∀ x ∈ xs, TextKey key x) :
    ∃ more rest, run key falling last xs = .ok (more, rest) ∧ more ++ rest = xs := by
  induction xs generalizing last with
  | nil => exact ⟨[], [], rfl, rfl⟩
  | cons x xs ih =>
    have hx := h x List.mem_cons_self
    obtain ⟨below, hbelow⟩ := hx.isBelow hlast
    obtain ⟨more, rest, hrun, hall⟩ := ih x hx fun y hy => h y (List.mem_cons_of_mem _ hy)
    by_cases hb : below = falling
    · refine ⟨x :: more, rest, ?_, congrArg (x :: ·) hall⟩
      rw [run, hbelow, ok_bind, if_pos hb, hrun, ok_bind]
      rfl
    · refine ⟨[], x :: xs, ?_, rfl⟩
      rw [run, hbelow, ok_bind, if_neg hb]
      rfl

theorem place_perm {x : α} (hx : TextKey key x) (made : List α)
    (h : ∀ y ∈ made, TextKey key y) :
    ∃ placed, place key x made = .ok placed ∧ placed.Perm (x :: made) := by
  -- halving goes on in the part before the middle or in the part after it
  induction hn : made.length using Nat.strongRecOn generalizing made with
  | ind n ih =>
    subst hn
    have hsplit := List.take_append_drop (made.length / 2) made
    rw [place]
    split
    · rename_i hdrop
      have hlen := congrArg List.length hdrop
      rw [List.length_drop, List.length_nil] at hlen
      have hnil : made = [] := List.length_eq_zero_iff.mp (by omega)
      exact ⟨[x], rfl, by rw [hnil]⟩
    · rename_i middle after hdrop
      rw [hdrop] at hsplit
      generalize made.take (made.length / 2) = front at hsplit
      subst hsplit
      obtain ⟨below, hbelow⟩ := hx.isBelow (h middle (by simp))
      rw [hbelow, ok_bind]
      cases below with
      | true =>
        obtain ⟨placed, hplaced, hperm⟩ := ih front.length (by simp) front
          (fun y hy => h y (List.mem_append_left _ hy)) rfl
        refine ⟨placed ++ middle :: after, ?_, hperm.append_right _⟩
        rw [if_pos rfl, hplaced, ok_bind]
        rfl
      | false =>
        obtain ⟨placed, hplaced, hperm⟩ := ih after.length (by simp; omega) after
          (fun y hy => h y (List.mem_append_right _ (List.mem_cons_of_mem _ hy))) rfl
        refine ⟨front ++ middle :: placed, ?_, ?_⟩
        · rw [if_neg Bool.false_ne_true, hplaced, ok_bind]
          rfl
        · have hswap := (hperm.cons middle).trans (List.Perm.swap x middle after)
          exact (hswap.append_left front).trans List.perm_middle

theorem foldlM_place_perm (xs made : List α) (hmade : ∀ x ∈ made, TextKey key x)
    (h : ∀ x ∈ xs, TextKey key x) :
    ∃ sorted, xs.foldlM (fun made x => place key x made) made = .ok sorted ∧
      sorted.Perm (xs ++ made) := by
  induction xs generalizing made with
  | nil => exact ⟨made, rfl, .rfl⟩
  | cons x xs ih =>
    obtain ⟨placed, hplaced, hperm⟩ := place_perm (h x List.mem_cons_self) made hmade
    have hkeys : ∀ y ∈ placed, TextKey key y := by
      intro y hy
      rcases List.mem_cons.mp (hperm.mem_iff.mp hy) with rfl | hy
      · exact h y List.mem_cons_self
      · exact hmade y hy
    obtain ⟨sorted, hsorted, hall⟩ := ih placed hkeys fun y hy => h y (List.mem_cons_of_mem _ hy)
    refine ⟨sorted, ?_, ?_⟩
    · rw [List.foldlM_cons, hplaced, ok_bind, hsorted]
    · exact hall.trans ((hperm.append_left xs).trans List.perm_middle)

theorem sortBy_perm (xs : List α) (h : ∀ x ∈ xs, TextKey key x) :
    ∃ sorted, sortBy key xs = .ok sorted ∧ sorted.Perm xs := by
  match xs with
  | [] => exact ⟨[], by rw [sortBy], .rfl⟩
  | [x] => exact ⟨[x], by rw [sortBy], .rfl⟩
  | x :: y :: rest =>
    have hy := h y (List.mem_cons_of_mem x List.mem_cons_self)
    obtain ⟨falling, hfalling⟩ := hy.isBelow (h x List.mem_cons_self)
    obtain ⟨more, rest, hrun, rfl⟩ := run_append falling y rest hy fun z hz =>
      h z (List.mem_cons_of_mem x (List.mem_cons_of_mem y hz))
    have hfront : (if falling then (x :: y :: more).reverse else x :: y :: more).Perm
        (x :: y :: more) := by
      split
      · exact List.reverse_perm _
      · exact .rfl
    have hkeys : ∀ z ∈ (if falling then (x :: y :: more).reverse else x :: y :: more),
        TextKey key z := fun z hz => h z (List.mem_append_left rest (hfront.mem_iff.mp hz))
    have hrest : ∀ z ∈ rest, TextKey key z := fun z hz => h z (by simp [hz])
    obtain ⟨sorted, hsorted, hperm⟩ := foldlM_place_perm rest _ hkeys hrest
    refine ⟨sorted, ?_, ?_⟩
    · rw [sortBy, hfalling, ok_bind, hrun, ok_bind]
      exact hsorted
    · exact hperm.trans (List.perm_append_comm.trans (hfront.append_right rest))

variable {fault : Fault}

theorem run_error {falling : Bool} {last : α} {xs : List α}
    (h : run key falling last xs = .error fault) : ∃ v w, isBelow v w = .error fault := by
  induction xs generalizing last with
  | nil => cases h
  | cons x xs ih =>
    rw [run] at h
    obtain hbelow | ⟨below, -, h⟩ := bind_eq_error.mp h
    · exact ⟨_, _, hbelow⟩
    split at h
    · obtain hrun | ⟨parts, -, h⟩ := bind_eq_error.mp h
      · exact ih hrun
      · cases h
    · cases h

theorem place_error {x : α} {made : List α} (h : place key x made = .error fault) :
    ∃ v w, isBelow v w = .error fault := by
  induction hn : made.length using Nat.strongRecOn generalizing made with
  | ind n ih =>
    subst hn
    rw [place] at h
    split at h
    · cases h
    · rename_i middle after hdrop
      have hlen := congrArg List.length hdrop
      rw [List.length_drop, List.length_cons] at hlen
      obtain hbelow | ⟨below, -, h⟩ := bind_eq_error.mp h
      · exact ⟨_, _, hbelow⟩
      split at h
      · obtain hplace | ⟨placed, -, h⟩ := bind_eq_error.mp h
        · exact ih _ (by rw [List.length_take]; omega) hplace rfl
        · cases h
      · obtain hplace | ⟨placed, -, h⟩ := bind_eq_error.mp h
        · exact ih _ (by omega) hplace rfl
        · cases h

theorem foldlM_place_error {xs made : List α}
    (h : xs.foldlM (fun made x => place key x made) made = .error fault) :
    ∃ v w, isBelow v w = .error fault := by
  induction xs generalizing made with
  | nil => cases h
  | cons x xs ih =>
    rw [List.foldlM_cons] at h
    obtain hplace | ⟨placed, -, h⟩ := bind_eq_error.mp h
    · exact place_error hplace
    · exact ih h

theorem sortBy_error {xs : List α} (h : sortBy key xs = .error fault) :
    ∃ v w, isBelow v w = .error fault := by
  match xs with
  | [] => rw [sortBy] at h; cases h
  | [x] => rw [sortBy] at h; cases h
  | x :: y :: rest =>
    rw [sortBy] at h
    obtain hbelow | ⟨falling, -, h⟩ := bind_eq_error.mp h
    · exact ⟨_, _, hbelow⟩
    obtain hrun | ⟨parts, -, h⟩ := bind_eq_error.mp h
    · exact run_error hrun
    · exact foldlM_place_error h

theorem isBelow_error_kind {v w : Value} (h : isBelow v w = .error fault) :
    fault.kind = .wrongType ∨ fault.kind = .decimalLimit := by
  rw [isBelow] at h
  cases hless : v.less w with
  | ok below => rw [hless] at h; cases h
  | error pair =>
    obtain ⟨a, b⟩ := pair
    rw [hless] at h
    cases h
    change (noOrder "<" a b).kind = .wrongType ∨ (noOrder "<" a b).kind = .decimalLimit
    unfold noOrder
    split
    · exact .inl rfl
    · exact .inr rfl
    · exact .inr rfl
    · exact .inl rfl

end Rehearsal.Value
