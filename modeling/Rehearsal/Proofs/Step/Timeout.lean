import Rehearsal.Proofs.Number.Nearest
import Rehearsal.Proofs.Step.Fields

/-! What building makes of a timeout. The check looks at the number that is given, and the step
holds the double nearest to it. Only an exact decimal can lie so close to zero that it is above zero
and its double is not: a step made with one has no time, and its own draft does not pass. -/

namespace Rehearsal

/-! Numbers that round to zero. -/

theorem roundQuotient_eq_zero {n d : Nat} (hd : 0 < d) : roundQuotient n d = 0 ↔ 2 * n ≤ d := by
  have hparts : d * (n / d) + n % d = n := Nat.div_add_mod n d
  have hrest : n % d < d := Nat.mod_lt n hd
  rcases Nat.eq_zero_or_pos (n / d) with hq | hq
  · rw [hq, Nat.mul_zero, Nat.zero_add] at hparts
    simp only [roundQuotient, hq, hparts]
    split_ifs with hdown hup
    · exact iff_of_true rfl hdown.le
    · exact iff_of_false id (not_le.mpr hup)
    · exact iff_of_true rfl (not_lt.mp hup)
  · have hlarge : d ≤ d * (n / d) := Nat.le_mul_of_pos_right d hq
    have hpos : 0 < roundQuotient n d := by
      simp only [roundQuotient]
      split_ifs <;> omega
    exact iff_of_false hpos.ne' (by omega)

namespace Binary64

variable {n d : Nat} {negative : Bool}

theorem units_eq_zero (hd : 0 < d) (place : Int) :
    units n d place = 0 ↔ (n : ℚ) / d ≤ 2 ^ place / 2 := by
  have hscale : (0 : ℚ) < (d * power 2 place : Nat) := by exact_mod_cast scaled_pos hd
  have hplace : (0 : ℚ) < 2 ^ place := by positivity
  calc units n d place = 0
      ↔ 2 * (n * power 2 (-place)) ≤ d * power 2 place := roundQuotient_eq_zero (scaled_pos hd)
    _ ↔ ((n * power 2 (-place) : Nat) : ℚ) / (d * power 2 place : Nat) ≤ 1 / 2 := by
        rw [div_le_iff₀ hscale, one_div, inv_mul_eq_div, le_div_iff₀ (by norm_num), mul_comm _ 2]
        exact_mod_cast Iff.rfl
    _ ↔ (n : ℚ) / d ≤ 2 ^ place / 2 := by
        rw [scaled_eq, div_le_iff₀ hplace, one_div, inv_mul_eq_div]

theorem near_eq_zero (hn : 0 < n) (hd : 0 < d) :
    near n d = 0 ↔ (n : ℚ) / d ≤ 2 ^ leastExponent / 2 := by
  have hleast : leastExponent ≤ lastPlace n d := by
    rw [lastPlace_eq hn hd]
    exact le_max_right _ _
  have hunits : near n d = 0 ↔ (n : ℚ) / d ≤ 2 ^ lastPlace n d / 2 := by
    rw [near, mul_eq_zero_iff_right (by positivity), Nat.cast_eq_zero, units_eq_zero hd]
  rw [hunits]
  rcases hleast.eq_or_lt with heq | hlt
  · rw [← heq]
  · -- with a last place above the least one, the double has all its digits
    have hlong := half_le_units hn hd hlt
    have hnot : ¬ (n : ℚ) / d ≤ 2 ^ lastPlace n d / 2 := by
      rw [← units_eq_zero hd]
      omega
    refine iff_of_false hnot fun hsmall => hnot (hsmall.trans ?_)
    gcongr
    norm_num

theorem ofQuotient_atMost_zero (hn : 0 < n) (hd : 0 < d) :
    (ofQuotient false n d).atMost (ofNat 0) = true ↔ (n : ℚ) / d ≤ 2 ^ leastExponent / 2 := by
  rw [← near_eq_zero hn hd]
  rcases ofQuotient_eq hn hd false with ⟨-, hvalue⟩ | ⟨hlarge, hmade⟩
  · rw [atMost_zero hvalue]
    exact ⟨fun h => le_antisymm h (near_nonneg n d), fun h => h.le⟩
  · rw [hmade]
    exact iff_of_false (by decide) (bound_pos.trans_le hlarge).ne'

theorem ofInt_pos {k : Int} (hk : 0 < k) : (ofInt k).atMost (ofNat 0) = false := by
  have hnat : 0 < k.natAbs := Int.natAbs_pos.mpr hk.ne'
  have hlarge : ¬ ((k.natAbs : ℚ) / (1 : Nat) ≤ 2 ^ leastExponent / 2) := by
    have hone : (1 : ℚ) ≤ k.natAbs := by exact_mod_cast hnat
    have hleast : (2 : ℚ) ^ leastExponent ≤ 1 := zpow_le_one_of_nonpos₀ (by norm_num) (by decide)
    rw [Nat.cast_one, div_one, not_le]
    linarith
  rwa [ofInt, decide_eq_false (not_lt.mpr hk.le), ← Bool.not_eq_true,
    ofQuotient_atMost_zero hnat Nat.one_pos]

theorem eq_of_ofIntChecked {k : Int} {x : Binary64} (h : ofIntChecked k = .ok x) : x = ofInt k := by
  rw [ofIntChecked] at h
  split at h
  · cases h
  · exact (Except.ok.inj h).symm

end Binary64

/-- A decimal above zero that is not above half of the least double. -/
def Value.Vanishes : Value → Prop
  | .decimal d => ∃ q, d.toRat? = some q ∧ 0 < q ∧ q ≤ 2 ^ Binary64.leastExponent / 2
  | _ => False

theorem Decimal.toBinary64_atMost_zero {d : Decimal}
    (h : ¬ (d.compare? (.ofInt 0) = some .lt ∨ d.compare? (.ofInt 0) = some .eq)) :
    d.toBinary64.atMost (Binary64.ofNat 0) = true ↔ (Value.decimal d).Vanishes := by
  cases d with
  | nan => exact iff_of_false (by decide) (fun ⟨_, hq, _⟩ => nomatch hq)
  | infinity negative =>
    cases negative with
    | true => exact absurd (.inl rfl) h
    | false => exact iff_of_false (by decide) (fun ⟨_, hq, _⟩ => nomatch hq)
  | finite negative c e =>
    have hvalue := toRat?_finite negative c e
    rw [compare?_zero hvalue, not_le] at h
    have hten : (0 : ℚ) < 10 ^ e := zpow_pos (by norm_num) e
    have hnonneg : (0 : ℚ) ≤ c * 10 ^ e := by positivity
    have hsign : negative = false := by
      cases negative with
      | false => rfl
      | true =>
        rw [Binary64.signed, if_pos rfl] at h
        linarith
    subst hsign
    have hpos : (0 : ℚ) < c * 10 ^ e := h
    have hc : 0 < c := Nat.pos_of_ne_zero fun hzero => by simp [hzero] at hpos
    rw [toBinary64, ofScaled_eq,
      Binary64.ofQuotient_atMost_zero (Nat.mul_pos hc (power_pos (by decide) _))
        (power_pos (by decide) _), quotient_eq]
    simp [Value.Vanishes, hvalue, Binary64.signed, hpos]

theorem Draft.seconds_vanishes {owner : String} {given : Value} {x : Binary64}
    (h : Draft.seconds owner given = .ok x) :
    x.atMost (Binary64.ofNat 0) = true ↔ given.Vanishes := by
  cases given with
  | bool b =>
    cases b with
    | false => cases h
    | true =>
      obtain rfl := Except.ok.inj h
      exact iff_of_false (ne_true_of_eq_false (Binary64.ofInt_pos Int.one_pos)) id
  | int k =>
    simp only [seconds, Value.number?] at h
    split at h
    · cases h
    · cases h
    · rename_i hlt heq
      have hk : 0 < k := by
        by_contra hle
        have hcast : (k : ℚ) ≤ 0 := by exact_mod_cast not_lt.mp hle
        rcases (Decimal.compare?_zero (Decimal.toRat?_ofInt k)).mpr hcast with hnone | hnone
        · exact hlt hnone
        · exact heq hnone
      obtain rfl := Binary64.eq_of_ofIntChecked h
      exact iff_of_false (ne_true_of_eq_false (Binary64.ofInt_pos hk)) id
  | float y =>
    obtain rfl := seconds_float h
    exact iff_of_false (ne_true_of_eq_false ((seconds_iff owner x).mp h)) id
  | decimal d =>
    simp only [seconds, Value.number?] at h
    split at h
    · cases h
    · cases h
    · rename_i hlt heq
      obtain rfl := Except.ok.inj h
      exact Decimal.toBinary64_atMost_zero (not_or.mpr ⟨hlt, heq⟩)
  | _ => cases h

/-! The timeout of a step. -/

/-- Whether the timeout of a step is not zero or below. -/
def Step.HasTime (s : Step) : Prop := s.timeout.atMost (Binary64.ofNat 0) = false

theorem StepDraft.timeout_of_mem {draft : StepDraft} {x : StepChange} (hx : x ∈ draft.contents)
    (hname : x.name = "timeout") : x = .timeout draft.timeout := by
  cases x with
  | timeout given => cases draft <;> simpa [contents, timeout] using hx
  | other name => cases draft <;> simp [contents] at hx
  | _ => simp [StepChange.name] at hname

theorem StepDraft.timeout_mem (draft : StepDraft) :
    StepChange.timeout draft.timeout ∈ draft.contents := by
  cases draft <;> simp [contents, timeout]

theorem Step.draft_timeout (s : Step) : s.draft.timeout = .float s.timeout := by
  cases s <;> rfl

theorem Step.timeout_mem (s : Step) : StepChange.timeout (.float s.timeout) ∈ s.draft.contents := by
  rw [← draft_timeout]
  exact s.draft.timeout_mem

theorem StepDraft.seconds_build {draft : StepDraft} {s : Step} (h : draft.build = .ok s) :
    Draft.seconds draft.variant.name draft.timeout = .ok s.timeout := by
  obtain ⟨x, hx, hsettle⟩ := exists_left_of_forall₂ (build_iff.mp h).2 s.timeout_mem
  obtain rfl := timeout_of_mem hx (StepChange.settle_name hsettle).symm
  obtain ⟨made, hmade, hsame⟩ := Option.map_eq_some_iff.mp hsettle
  cases hsame
  exact toOption_eq_some.mp hmade

theorem StepDraft.hasTime_build {draft : StepDraft} {s : Step} (h : draft.build = .ok s) :
    s.HasTime ↔ ¬ draft.timeout.Vanishes := by
  rw [← Draft.seconds_vanishes (seconds_build h), Bool.not_eq_true, Step.HasTime]

end Rehearsal
