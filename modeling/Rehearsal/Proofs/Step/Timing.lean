import Mathlib.Data.List.Sort
import Rehearsal.Proofs.Number.Operations
import Rehearsal.Step.Result

/-! The timing of a batch in exact numbers. Sorted durations are the corners of a line that never
falls, a percentile is a point on that line, and rounding to three places keeps the order. So the
percentiles lie between the shortest and the longest duration and follow their ranks; and a sorted
list does not tell in which order its elements came. -/

namespace Rehearsal

/-! Rounding. -/

theorem nearestInt_mono {p q : ℚ} (h : p ≤ q) : nearestInt p ≤ nearestInt q := by
  have hmono : ∀ {a b : ℚ}, |a| ≤ |b| →
      roundQuotient a.num.natAbs a.den ≤ roundQuotient b.num.natAbs b.den := by
    intro a b hab
    refine roundQuotient_mono_div a.den_pos b.den_pos ?_
    rwa [Binary64.abs_eq_quotient, Binary64.abs_eq_quotient]
  simp only [nearestInt, Rat.num_neg]
  rcases lt_or_ge p 0 with hp | hp
  · rcases lt_or_ge q 0 with hq | hq
    · have hle := hmono (a := q) (b := p) (by rw [abs_of_neg hq, abs_of_neg hp]; linarith)
      rw [if_pos hp, if_pos hq]
      omega
    · rw [if_pos hp, if_neg (not_lt.mpr hq)]
      omega
  · have hq := hp.trans h
    have hle := hmono (a := p) (b := q) (by rwa [abs_of_nonneg hp, abs_of_nonneg hq])
    rw [if_neg (not_lt.mpr hp), if_neg (not_lt.mpr hq)]
    exact_mod_cast hle

namespace Timing

theorem rounded_mono {p q : ℚ} (h : p ≤ q) : Quantity.rounded p ≤ Quantity.rounded q := by
  have hnear : nearestInt (p * 1000) ≤ nearestInt (q * 1000) := nearestInt_mono (by linarith)
  have hcast : (nearestInt (p * 1000) : ℚ) ≤ nearestInt (q * 1000) := by exact_mod_cast hnear
  show (nearestInt (p * 1000) : ℚ) / 1000 ≤ nearestInt (q * 1000) / 1000
  linarith

/-! Sorted durations. -/

theorem sorted_perm (durations : List ℚ) : (sorted durations).Perm durations :=
  List.mergeSort_perm _ _

theorem sorted_sortedLE (durations : List ℚ) : (sorted durations).SortedLE :=
  List.sortedLE_mergeSort

theorem sorted_eq_of_perm {durations others : List ℚ} (h : durations.Perm others) :
    sorted durations = sorted others := by
  refine List.Perm.eq_of_sortedLE (sorted_sortedLE _) (sorted_sortedLE _) ?_
  exact (sorted_perm durations).trans (h.trans (sorted_perm others).symm)

/-! Percentiles. -/

def corner (values : List ℚ) (i : Nat) : ℚ := (values[min i (values.length - 1)]?).getD 0

/-- The line through the values, a hundred parts from each one to the next. -/
def line (values : List ℚ) (part : Nat) : ℚ :=
  corner values (part / 100) +
    (corner values (part / 100 + 1) - corner values (part / 100)) * (part % 100 : Nat) / 100

variable {values : List ℚ}

theorem corner_mem (hne : values ≠ []) (i : Nat) : corner values i ∈ values := by
  have hlen : min i (values.length - 1) < values.length := by
    have hpos := List.length_pos_iff.mpr hne
    omega
  rw [corner, List.getElem?_eq_getElem hlen]
  exact List.getElem_mem hlen

theorem corner_mono (h : values.SortedLE) (hne : values ≠ []) : Monotone (corner values) := by
  intro i j hij
  have hpos := List.length_pos_iff.mpr hne
  have hi : min i (values.length - 1) < values.length := by omega
  have hj : min j (values.length - 1) < values.length := by omega
  rw [corner, corner, List.getElem?_eq_getElem hi, List.getElem?_eq_getElem hj]
  exact h.getElem_le_getElem_of_le (by omega)

theorem mem_between (h : values.SortedLE) (hne : values ≠ []) {d : ℚ} (hd : d ∈ values) :
    corner values 0 ≤ d ∧ d ≤ corner values (values.length - 1) := by
  obtain ⟨i, hi, rfl⟩ := List.getElem_of_mem hd
  have hcorner : corner values i = values[i] := by
    rw [corner, Nat.min_eq_left (by omega), List.getElem?_eq_getElem hi, Option.getD_some]
  rw [← hcorner]
  exact ⟨corner_mono h hne i.zero_le, corner_mono h hne (by omega)⟩

theorem line_corner (values : List ℚ) (i : Nat) : line values (100 * i) = corner values i := by
  rw [line, Nat.mul_div_cancel_left i (by decide), Nat.mul_mod_right]
  simp

theorem line_between (h : values.SortedLE) (hne : values ≠ []) (part : Nat) :
    corner values (part / 100) ≤ line values part ∧
      line values part ≤ corner values (part / 100 + 1) := by
  have hstep := corner_mono h hne (Nat.le_succ (part / 100))
  have hpart : ((part % 100 : Nat) : ℚ) ≤ 100 := by
    exact_mod_cast (Nat.mod_lt part (by decide)).le
  have hzero : (0 : ℚ) ≤ (part % 100 : Nat) := Nat.cast_nonneg _
  rw [Nat.succ_eq_add_one] at hstep
  constructor
  · have hup : 0 ≤ (corner values (part / 100 + 1) - corner values (part / 100)) *
        (part % 100 : Nat) := mul_nonneg (by linarith) hzero
    rw [line]
    linarith
  · have hless : (corner values (part / 100 + 1) - corner values (part / 100)) *
        (part % 100 : Nat) ≤ (corner values (part / 100 + 1) - corner values (part / 100)) * 100 :=
      mul_le_mul_of_nonneg_left hpart (by linarith)
    rw [line]
    linarith

theorem line_mono (h : values.SortedLE) (hne : values ≠ []) : Monotone (line values) := by
  intro part later hle
  rcases (Nat.div_le_div_right hle : part / 100 ≤ later / 100).lt_or_eq with hlt | heq
  · calc line values part ≤ corner values (part / 100 + 1) := (line_between h hne part).2
      _ ≤ corner values (later / 100) := corner_mono h hne hlt
      _ ≤ line values later := (line_between h hne later).1
  · have hstep := corner_mono h hne (Nat.le_succ (part / 100))
    have hpart : ((part % 100 : Nat) : ℚ) ≤ (later % 100 : Nat) := by
      have : part % 100 ≤ later % 100 := by omega
      exact_mod_cast this
    have hless := mul_le_mul_of_nonneg_left hpart (sub_nonneg.mpr hstep)
    rw [Nat.succ_eq_add_one] at hless
    rw [line, line, ← heq]
    linarith

theorem percentile?_eq (hne : values ≠ []) {rank : Nat} (hrank : rank ≤ 100) :
    percentile? values rank = some (line values (rank * (values.length - 1))) := by
  have hpos := List.length_pos_iff.mpr hne
  generalize hplace : rank * (values.length - 1) = place
  have hle : place ≤ 100 * (values.length - 1) := hplace ▸ Nat.mul_le_mul_right _ hrank
  have hlow : place / 100 < values.length := by omega
  have hcorner : corner values (place / 100) = values[place / 100] := by
    rw [corner, Nat.min_eq_left (by omega), List.getElem?_eq_getElem hlow, Option.getD_some]
  simp only [percentile?, hplace, List.getElem?_eq_getElem hlow, line, hcorner]
  by_cases hhigh : place / 100 + 1 < values.length
  · have hnext : corner values (place / 100 + 1) = values[place / 100 + 1] := by
      rw [corner, Nat.min_eq_left (by omega), List.getElem?_eq_getElem hhigh, Option.getD_some]
    have hweight : ((100 - place % 100 : Nat) : ℚ) = 100 - (place % 100 : Nat) := by
      rw [Nat.cast_sub (Nat.mod_lt place (by decide)).le]
      rfl
    simp only [List.getElem?_eq_getElem hhigh, hnext, Quantity.part, Quantity.add, Quantity.times,
      hweight]
    congr 1
    push_cast
    ring
  · -- behind the last value the line is flat
    have hnext : corner values (place / 100 + 1) = values[place / 100] := by
      have hlast : min (place / 100 + 1) (values.length - 1) = place / 100 := by omega
      rw [corner, hlast, List.getElem?_eq_getElem hlow, Option.getD_some]
    rw [List.getElem?_eq_none (by omega), hnext]
    simp

theorem getLast?_eq_corner (hne : values ≠ []) :
    values.getLast? = some (corner values (values.length - 1)) := by
  have hpos := List.length_pos_iff.mpr hne
  have hlast : values.length - 1 < values.length := by omega
  rw [List.getLast?_eq_getElem?, corner, Nat.min_self, List.getElem?_eq_getElem hlast,
    Option.getD_some]

/-! The summary. -/

theorem summarize_perm {items others : List (Option ℚ × Bool)} (h : items.Perm others) :
    summarize items = summarize others := by
  have hsorted := sorted_eq_of_perm (h.filterMap (·.1))
  have hok := (h.filter (·.2)).length_eq
  simp only [summarize, hsorted, hok, h.length_eq]

theorem ok_add_failed (items : List (Option ℚ × Bool)) :
    (summarize items).ok + (summarize items).failed = items.length :=
  Nat.add_sub_cancel' (List.length_filter_le _ _)

/-- The percentiles and the maximum of durations of which there is one: they are points of one line,
which goes from the shortest duration to the longest. -/
theorem summarize_points {items : List (Option ℚ × Bool)} (hne : items.filterMap (·.1) ≠ []) :
    let values := sorted (items.filterMap (·.1))
    let last := values.length - 1
    values ≠ [] ∧
      (summarize items).middle = some (Quantity.rounded (line values (50 * last))) ∧
      (summarize items).high = some (Quantity.rounded (line values (95 * last))) ∧
      (summarize items).longest = some (Quantity.rounded (corner values last)) := by
  intro values last
  have hvalues : values ≠ [] := fun hnil =>
    hne (List.perm_nil.mp (hnil ▸ (sorted_perm (items.filterMap (·.1))).symm))
  refine ⟨hvalues, ?_, ?_, ?_⟩
  · simp only [summarize, percentile?_eq hvalues (by decide : 50 ≤ 100), values, Option.map_some,
      last]
  · simp only [summarize, percentile?_eq hvalues (by decide : 95 ≤ 100), values, Option.map_some,
      last]
  · simp only [summarize, getLast?_eq_corner hvalues, values, Option.map_some, last]

/-- The timing of items in exact numbers, whatever their durations and however many are known. It
counts each item once, does not depend on their order, and has percentiles and a maximum just if a
duration is known. These then lie in order between the rounded shortest and the rounded longest
duration; the maximum is the latter, and all are, where there is one duration only. -/
theorem summary_in_range (items : List (Option ℚ × Bool)) :
    let summary : TimingSummary ℚ := summarize items
    let durations := items.filterMap (·.1)
    (summary.count = items.length ∧ summary.ok = items.countP (·.2) ∧
      summary.ok + summary.failed = items.length) ∧
    (∀ others, items.Perm others → summarize others = summary) ∧
    (summary.middle = none ↔ durations = []) ∧ (summary.high = none ↔ durations = []) ∧
    (summary.longest = none ↔ durations = []) ∧
    (durations ≠ [] → ∃ shortest ∈ durations, ∃ longest ∈ durations,
      (∀ d ∈ durations, shortest ≤ d ∧ d ≤ longest) ∧
      ∃ middle high, summary.middle = some middle ∧ summary.high = some high ∧
        summary.longest = some (Quantity.rounded longest) ∧
        Quantity.rounded shortest ≤ middle ∧ middle ≤ high ∧ high ≤ Quantity.rounded longest ∧
        ((∀ d ∈ durations, d = longest) →
          middle = Quantity.rounded longest ∧ high = Quantity.rounded longest)) := by
  intro summary durations
  have hnone : durations = [] →
      summary.middle = none ∧ summary.high = none ∧ summary.longest = none := by
    intro hnil
    have hsorted : sorted (items.filterMap (·.1)) = [] := by
      rw [show items.filterMap (·.1) = [] from hnil, sorted, List.mergeSort_nil]
    simp only [summary, summarize, hsorted]
    exact ⟨rfl, rfl, rfl⟩
  have hiff : ∀ {point : Option ℚ}, (durations = [] → point = none) →
      (durations ≠ [] → ∃ q, point = some q) → (point = none ↔ durations = []) := by
    intro point hempty hgiven
    refine ⟨fun hpoint => Decidable.byContradiction fun hne => ?_, hempty⟩
    obtain ⟨q, hq⟩ := hgiven hne
    cases hpoint.symm.trans hq
  refine ⟨⟨rfl, List.countP_eq_length_filter.symm, ok_add_failed items⟩,
    fun others h => (summarize_perm h).symm,
    hiff (fun h => (hnone h).1) fun h => ⟨_, (summarize_points h).2.1⟩,
    hiff (fun h => (hnone h).2.1) fun h => ⟨_, (summarize_points h).2.2.1⟩,
    hiff (fun h => (hnone h).2.2) fun h => ⟨_, (summarize_points h).2.2.2⟩, fun hne => ?_⟩
  obtain ⟨hvalues, hmiddle, hhigh, hlongest⟩ := summarize_points hne
  have hle : (sorted durations).SortedLE := sorted_sortedLE _
  have hmem : ∀ d, d ∈ sorted durations ↔ d ∈ durations := fun d => (sorted_perm _).mem_iff
  have hmono := line_mono hle hvalues
  -- from here on only the sorted values count
  generalize sorted durations = values at hmiddle hhigh hlongest hvalues hle hmem hmono
  generalize hlast : values.length - 1 = last at hmiddle hhigh hlongest
  have hfirst : Quantity.rounded (corner values 0) ≤
      Quantity.rounded (line values (50 * last)) := by
    rw [← line_corner]
    exact rounded_mono (hmono (Nat.zero_le _))
  have hrest : Quantity.rounded (line values (50 * last)) ≤
      Quantity.rounded (line values (95 * last)) := rounded_mono (hmono (by omega))
  have hend : Quantity.rounded (line values (95 * last)) ≤
      Quantity.rounded (corner values last) := by
    rw [← line_corner]
    exact rounded_mono (hmono (by omega))
  refine ⟨corner values 0, (hmem _).mp (corner_mem hvalues 0), corner values last,
    (hmem _).mp (corner_mem hvalues last), fun d hd => ?_, _, _, hmiddle, hhigh, hlongest, hfirst,
    hrest, hend, fun hall => ?_⟩
  · exact hlast ▸ mem_between hle hvalues ((hmem d).mpr hd)
  · have hsame := hall _ ((hmem _).mp (corner_mem hvalues 0))
    rw [hsame] at hfirst
    exact ⟨le_antisymm (hrest.trans hend) hfirst, le_antisymm hend (hfirst.trans hrest)⟩

/-- Two durations, the longer one first, and an item whose duration is not known. -/
theorem summary_in_range_three :
    let items : List (Option ℚ × Bool) := [(some 40, true), (none, false), (some 10, false)]
    let others : List (Option ℚ × Bool) := [(some 10, false), (some 40, true), (none, false)]
    items.Perm others ∧ summarize others = summarize items ∧ items.filterMap (·.1) ≠ [] ∧
      (summarize items).longest = some 40 ∧
      ∃ middle high, (summarize items).middle = some middle ∧ (summarize items).high = some high ∧
        10 ≤ middle ∧ middle ≤ high ∧ high ≤ 40 := by
  intro items others
  obtain ⟨-, hreordered, -, -, -, hpoints⟩ := summary_in_range items
  have hperm : items.Perm others := by decide
  have hne : items.filterMap (·.1) ≠ [] := by simp [items]
  obtain ⟨shortest, hshortest, longest, hlongest, hall, middle, high, hm, hh, hl, hlow, hle, hhigh,
    -⟩ := hpoints hne
  have hten : shortest = 10 := by
    have := (hall 10 (by simp [items])).1
    rcases (by simpa [items] using hshortest : shortest = 40 ∨ shortest = 10) with rfl | rfl
    · norm_num at this
    · rfl
  have hforty : longest = 40 := by
    have := (hall 40 (by simp [items])).2
    rcases (by simpa [items] using hlongest : longest = 40 ∨ longest = 10) with rfl | rfl
    · rfl
    · norm_num at this
  have hrounded : Quantity.rounded (10 : ℚ) = 10 ∧ Quantity.rounded (40 : ℚ) = 40 := by
    decide +kernel
  rw [hten, hrounded.1] at hlow
  rw [hforty, hrounded.2] at hl hhigh
  exact ⟨hperm, hreordered others hperm, hne, hl, middle, high, hm, hh, hlow, hle, hhigh⟩

end Timing

end Rehearsal
