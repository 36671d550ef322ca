import Rehearsal.Proofs.Number.Operations
import Rehearsal.Proofs.Value.Float
import Rehearsal.Scenario.Construction

/-! Milliseconds that pass through seconds in doubles. Both a time of a message and a lingering time
are held in seconds, multiplied by a thousand and cut to a whole number. What is left is the number
that was given, or the one next to it on the side of zero, and it is the number given just if the
product of the doubles reaches it. -/

namespace Rehearsal

namespace Millis

open Binary64

/-- The seconds that a number of milliseconds is held as. -/
def seconds (n : Int) : ℚ := rounded (n / 1000)

/-- The milliseconds that these seconds are taken for, before they are cut. -/
def product (n : Int) : ℚ := rounded (seconds n * 1000)

/-- What is left of a number of milliseconds. -/
def kept (n : Int) : Int := towardZero (product n)

variable {n : Int}

theorem seconds_neg (n : Int) : seconds (-n) = -seconds n := by
  rw [seconds, Int.cast_neg, neg_div, rounded_neg, seconds]

theorem product_neg (n : Int) : product (-n) = -product n := by
  rw [product, seconds_neg, neg_mul, rounded_neg, product]

theorem kept_neg (n : Int) : kept (-n) = -kept n := by
  rw [kept, product_neg, towardZero_neg, kept]

theorem product_nonneg (hn : 0 ≤ n) : 0 ≤ product n := by
  have hcast : (0 : ℚ) ≤ n := by exact_mod_cast hn
  have hseconds : 0 ≤ seconds n := by
    rw [seconds, ← rounded_zero]
    exact rounded_mono (by positivity)
  rw [product, ← rounded_zero]
  exact rounded_mono (by positivity)

theorem product_error (h : |(n : ℚ)| < 2 ^ (1000 : Int)) :
    |product n - n| ≤ |(n : ℚ)| / 2 ^ 51 := by
  rcases eq_or_ne n 0 with rfl | hn
  · simp [product, seconds, rounded_zero]
  have hone : (1 : ℚ) ≤ |(n : ℚ)| := by
    rw [← Int.cast_abs]
    exact_mod_cast Int.one_le_abs hn
  have htiny : (2 : ℚ) ^ (-1022 : Int) ≤ 1 / 2000 := by
    calc (2 : ℚ) ^ (-1022 : Int) ≤ 2 ^ (-11 : Int) := zpow_le_zpow_right₀ (by norm_num) (by decide)
      _ ≤ 1 / 2000 := by norm_num
  have hhuge : |(n : ℚ)| * 4 < 2 ^ (1022 : Int) := by
    calc |(n : ℚ)| * 4 < 2 ^ (1000 : Int) * 4 := by gcongr
      _ = 2 ^ (1002 : Int) := by
          rw [show (1002 : Int) = 1000 + 2 from rfl, zpow_add₀ (by norm_num)]
          norm_num
      _ ≤ 2 ^ (1022 : Int) := zpow_le_zpow_right₀ (by norm_num) (by decide)
  have hthousandth : |(n : ℚ) / 1000| = |(n : ℚ)| / 1000 := by
    rw [abs_div, abs_of_pos (by norm_num : (0 : ℚ) < 1000)]
  -- each of the two roundings is off by a `2 ^ 53`th part
  have hfirst : |seconds n - n / 1000| ≤ |(n : ℚ)| / 1000 / 2 ^ 53 := by
    rw [← hthousandth]
    refine rounded_error ?_ (lt_of_le_of_lt ?_ hhuge) <;> rw [hthousandth] <;> linarith
  have hback : |seconds n * 1000 - n| ≤ |(n : ℚ)| / 2 ^ 53 := by
    have hscale : seconds n * 1000 - n = (seconds n - n / 1000) * 1000 := by ring
    rw [hscale, abs_mul, abs_of_pos (by norm_num : (0 : ℚ) < 1000)]
    linarith
  have hsize := abs_le.mp ((abs_abs_sub_abs_le_abs_sub _ _).trans hback)
  have hsecond : |product n - seconds n * 1000| ≤ |seconds n * 1000| / 2 ^ 53 := by
    refine rounded_error ?_ (lt_of_le_of_lt ?_ hhuge) <;> linarith
  calc |product n - n| ≤ |product n - seconds n * 1000| + |seconds n * 1000 - n| :=
        abs_sub_le _ _ _
    _ ≤ |(n : ℚ)| / 2 ^ 51 := by linarith

theorem kept_nonneg_cases (hn : 0 ≤ n) (h : n < 2 ^ 51) :
    kept n = n ∧ (n : ℚ) ≤ product n ∨ kept n = n - 1 ∧ product n < n := by
  obtain ⟨m, rfl⟩ := Int.eq_ofNat_of_zero_le hn
  have hm : (m : ℚ) < 2 ^ 51 := by exact_mod_cast h
  have hsize : |((m : Int) : ℚ)| = m := by simp
  have herror := product_error (n := m) (by
    rw [hsize]
    exact hm.trans (by
      rw [← zpow_natCast]
      exact zpow_lt_zpow_right₀ (by norm_num) (by decide)))
  rw [hsize, Int.cast_natCast] at herror
  have hclose : |product m - m| < 1 := by
    refine herror.trans_lt ?_
    rw [div_lt_one (by positivity)]
    exact hm
  obtain ⟨hlow, hhigh⟩ := abs_lt.mp hclose
  have hnonneg := product_nonneg hn
  rw [kept, towardZero_of_nonneg hnonneg, Int.cast_natCast]
  -- a product less than one away is cut to the number, or to the one below it
  rcases le_or_gt (m : ℚ) (product m) with hle | hlt
  · refine .inl ⟨?_, hle⟩
    have hfloor : ⌊product m⌋₊ = m := by
      rw [Nat.floor_eq_iff hnonneg]
      exact ⟨hle, by linarith⟩
    rw [hfloor]
  · refine .inr ⟨?_, hlt⟩
    have hpos : 0 < m := by
      have hcast : (0 : ℚ) < m := hnonneg.trans_lt hlt
      exact_mod_cast hcast
    have hpred : ((m - 1 : Nat) : ℚ) = m - 1 := by
      rw [Nat.cast_sub hpos, Nat.cast_one]
    have hfloor : ⌊product m⌋₊ = m - 1 := by
      rw [Nat.floor_eq_iff hnonneg, hpred]
      constructor <;> linarith
    rw [hfloor]
    omega

theorem kept_cases (h : n.natAbs < 2 ^ 51) :
    kept n = n ∧ |(n : ℚ)| ≤ |product n| ∨ kept n = n - n.sign ∧ |product n| < |(n : ℚ)| := by
  have hpositive : ∀ m : Int, 0 ≤ m → m < 2 ^ 51 →
      kept m = m ∧ |(m : ℚ)| ≤ |product m| ∨ kept m = m - m.sign ∧ |product m| < |(m : ℚ)| := by
    intro m hm hlt
    have hcast : (0 : ℚ) ≤ m := by exact_mod_cast hm
    rw [abs_of_nonneg hcast, abs_of_nonneg (product_nonneg hm)]
    rcases kept_nonneg_cases hm hlt with hkept | ⟨hcut, hbelow⟩
    · exact .inl hkept
    · have hpos : 0 < m := by
        have hproduct := product_nonneg hm
        have hcast' : (0 : ℚ) < m := hproduct.trans_lt hbelow
        exact_mod_cast hcast'
      rw [Int.sign_eq_one_of_pos hpos]
      exact .inr ⟨hcut, hbelow⟩
  rcases le_total 0 n with hn | hn
  · exact hpositive n hn (by omega)
  · have hmirror := hpositive (-n) (by omega) (by omega)
    rw [kept_neg, product_neg, abs_neg, Int.cast_neg, abs_neg, Int.sign_neg] at hmirror
    rcases hmirror with ⟨hkept, hle⟩ | ⟨hcut, hlt⟩
    · exact .inl ⟨by omega, hle⟩
    · exact .inr ⟨by omega, hlt⟩

theorem kept_of_dvd (hdvd : 125 ∣ n) (h : n.natAbs < 2 ^ 53) : kept n = n := by
  obtain ⟨m, rfl⟩ := hdvd
  have hm : m.natAbs < 2 ^ 53 := by omega
  have heighth : (((125 * m : Int) : ℚ)) / 1000 = m * 2 ^ (-3 : Int) := by
    push_cast
    norm_num
    ring
  have hsmall : |(m : ℚ) * 2 ^ (-3 : Int)| < 2 ^ (1023 : Int) := by
    have hcast : ((m.natAbs : Nat) : ℚ) < 2 ^ (53 : Int) := by exact_mod_cast hm
    rw [Nat.cast_natAbs, Int.cast_abs] at hcast
    calc |(m : ℚ) * 2 ^ (-3 : Int)| ≤ |(m : ℚ)| := by
          rw [abs_mul]
          refine mul_le_of_le_one_right (abs_nonneg _) ?_
          norm_num
      _ < 2 ^ (53 : Int) := hcast
      _ ≤ 2 ^ (1023 : Int) := zpow_le_zpow_right₀ (by norm_num) (by decide)
  have hseconds : seconds (125 * m) = ((125 * m : Int) : ℚ) / 1000 := by
    rw [seconds, heighth, rounded_exact hm (by decide) hsmall]
  rw [kept, product, hseconds, div_mul_cancel₀ _ (by norm_num), rounded_intCast h,
    towardZero_intCast]

theorem thousandth_small (h : |(n : ℚ)| < 2 ^ (1000 : Int)) :
    |(n : ℚ) / 1000| < 2 ^ (1000 : Int) := by
  rw [abs_div, abs_of_pos (by norm_num : (0 : ℚ) < 1000)]
  exact (div_le_self (abs_nonneg _) (by norm_num)).trans_lt h

theorem seconds_small (h : |(n : ℚ)| < 2 ^ (1000 : Int)) :
    |seconds n * 1000| < 2 ^ (1023 : Int) := by
  have hclose := rounded_close (by decide) (by decide) (thousandth_small h)
  have hsize := (abs_abs_sub_abs_le_abs_sub _ _).trans hclose
  have hroom : (2 : ℚ) ^ (1000 - 54 : Int) ≤ 2 ^ (1000 : Int) :=
    zpow_le_zpow_right₀ (by norm_num) (by decide)
  have hupper : |seconds n| ≤ 2 ^ (1000 : Int) + 2 ^ (1000 : Int) :=
    (sub_le_iff_le_add'.mp (abs_le.mp hsize).2).trans (add_le_add (thousandth_small h).le hroom)
  rw [abs_mul, abs_of_pos (by norm_num : (0 : ℚ) < 1000)]
  calc |seconds n| * 1000 ≤ (2 ^ (1000 : Int) + 2 ^ (1000 : Int)) * 1000 := by
        exact mul_le_mul_of_nonneg_right hupper (by norm_num)
    _ < 2 ^ (1000 : Int) * 2 ^ (23 : Int) := by
        rw [← two_mul, mul_comm 2, mul_assoc]
        refine mul_lt_mul_of_pos_left ?_ (by positivity)
        norm_num
    _ = 2 ^ (1023 : Int) := by
        rw [← zpow_add₀ (by norm_num)]
        rfl

theorem truncate?_product (h : |(n : ℚ)| < 2 ^ (1000 : Int)) {x : Binary64}
    (hx : x.toRat? = some (seconds n)) :
    (x * Binary64.ofNat 1000).truncate? = some (kept n) :=
  truncate?_eq (toRat?_mul hx (toRat?_ofNat (by decide)) (seconds_small h))

theorem lingerMillis_span (h : |(n : ℚ)| < 2 ^ (1000 : Int)) :
    TuningChange.lingerMillis (.span ⟨1000 * n⟩) = .int (kept n) := by
  have hseconds : (Span.totalSeconds ⟨1000 * n⟩).toRat? = some (seconds n) := by
    have hquotient : mkRat (1000 * n) 1000000 = (n : ℚ) / 1000 := by
      rw [Rat.mkRat_eq_div]
      push_cast
      ring
    have hsmall := (thousandth_small h).trans
      (zpow_lt_zpow_right₀ (by norm_num : (1 : ℚ) < 2) (by decide : (1000 : Int) < 1023))
    rw [Span.totalSeconds, hquotient, seconds]
    exact toRat?_ofRat hsmall false
  rw [TuningChange.lingerMillis, truncate?_product h hseconds, Option.getD_some]

theorem epochMillis_ofEpochMicros (h : |(n : ℚ)| < 2 ^ (1000 : Int)) {micros : Int}
    (hsmall : |(micros : ℚ) / 1000000| < 2 ^ (1023 : Int))
    (hback : rounded ((micros : ℚ) / 1000000) = seconds n) :
    (Instant.ofEpochMicros micros).epochMillis = kept n := by
  have hseconds : (Binary64.ofRat false (mkRat micros 1000000)).toRat? = some (seconds n) := by
    rw [Rat.mkRat_eq_div, ← hback]
    exact toRat?_ofRat (by exact_mod_cast hsmall) false
  have hmicros : (Instant.ofEpochMicros micros).epochMicros = micros := by
    simp [Instant.epochMicros, Instant.ofEpochMicros]
  rw [Instant.epochMillis, hmicros, truncate?_product h hseconds, Option.getD_some]

end Millis

end Rehearsal
