import Rehearsal.Proofs.Number.Shortest

/-! Which decimals their nearest double is written as: those of up to fifteen digits, if they are
neither too large nor too small for a double with a full significand, and none that needs more than
seventeen digits. -/

namespace Rehearsal

namespace Binary64

variable {n d c significand : Nat} {e exponent : Int} {negative : Bool}

theorem ofQuotient_error (hd : 0 < d)
    (h : ofQuotient negative n d = .finite negative significand exponent) :
    |(n : ℚ) / d - significand * 2 ^ exponent| ≤ 2 ^ exponent / 2 := by
  have hpow : (0 : ℚ) < 2 ^ exponent := by positivity
  rcases n.eq_zero_or_pos with rfl | hn
  · rw [ofQuotient, if_pos rfl] at h
    cases h
    rw [Nat.cast_zero, zero_div, zero_mul, sub_zero, abs_zero]
    exact (half_pos hpow).le
  · have hclose : |(units n d (lastPlace n d) : ℚ) * 2 ^ lastPlace n d - n / d| ≤
        2 ^ lastPlace n d / 2 := by
      refine scaled_close (by positivity) ?_
      rw [← scaled_eq]
      exact roundQuotient_close (scaled_pos hd)
    rw [ofQuotient_units hn] at h
    rw [abs_sub_comm]
    by_cases hfull : units n d (lastPlace n d) = power 2 53
    · -- the significand became too long, so the place of the double is one higher
      rw [if_pos hfull] at h
      dsimp only at h
      split_ifs at h
      cases h
      have htwice : (power 2 53 : ℚ) = power 2 52 * 2 := by
        exact_mod_cast (rfl : power 2 53 = power 2 52 * 2)
      have hplace : (0 : ℚ) < 2 ^ lastPlace n d := by positivity
      rw [hfull, htwice, mul_assoc, ← two_zpow_succ] at hclose
      refine hclose.trans ?_
      rw [two_zpow_succ]
      linarith
    · rw [if_neg hfull] at h
      dsimp only at h
      split_ifs at h
      cases h
      exact hclose

theorem multiples_eq {unit x : ℚ} {a b : Nat} (hunit : 0 < unit) (ha : |a * unit - x| < unit / 2)
    (hb : |b * unit - x| < unit / 2) : a = b := by
  have hdiff : |((a : ℚ) - b) * unit| < 1 * unit := by
    have htriangle := abs_sub_le (a * unit) x (b * unit)
    rw [abs_sub_comm x] at htriangle
    rw [sub_mul]
    linarith
  rw [abs_mul, abs_of_pos hunit, mul_lt_mul_iff_of_pos_right hunit] at hdiff
  have hzero : (a : ℤ) - b = 0 := Int.abs_lt_one_iff.mp (by exact_mod_cast hdiff)
  omega

theorem low_bounds (hd : 0 < d) (scale : Int) :
    ((n * power 10 (-scale) / (d * power 10 scale) : Nat) : ℚ) * 10 ^ scale ≤ n / d ∧
      (n : ℚ) / d < ((n * power 10 (-scale) / (d * power 10 scale) : Nat) + 1) * 10 ^ scale := by
  have hunit : (0 : ℚ) < 10 ^ scale := by positivity
  have hbottom : 0 < d * power 10 scale := Nat.mul_pos hd (power_pos (by decide) scale)
  have hbottom' : (0 : ℚ) < (d * power 10 scale : Nat) := by exact_mod_cast hbottom
  have hquotient := scaled_quotient n d scale
  generalize n * power 10 (-scale) = top at *
  generalize d * power 10 scale = bottom at *
  rw [← le_div_iff₀ hunit, ← div_lt_iff₀ hunit, ← hquotient, le_div_iff₀ hbottom',
    div_lt_iff₀ hbottom']
  have hnext : top < (top / bottom + 1) * bottom := by
    rw [Nat.succ_mul]
    exact Nat.lt_div_mul_add hbottom
  exact ⟨by exact_mod_cast Nat.div_mul_le_self top bottom, by exact_mod_cast hnext⟩

theorem neighbour_of_close (hd : 0 < d) {scale : Int}
    (h : |(c : ℚ) * 10 ^ scale - n / d| < 10 ^ scale / 2) :
    c = n * power 10 (-scale) / (d * power 10 scale) ∨
      c = n * power 10 (-scale) / (d * power 10 scale) + 1 := by
  have hunit : (0 : ℚ) < 10 ^ scale := by positivity
  obtain ⟨hlow, hhigh⟩ := low_bounds (n := n) hd scale
  generalize n * power 10 (-scale) / (d * power 10 scale) = low at hlow hhigh ⊢
  obtain ⟨hbelow, habove⟩ := abs_lt.mp h
  have hmore : (low : ℚ) - 1 < c := by
    refine lt_of_mul_lt_mul_right ?_ hunit.le
    rw [sub_mul]
    linarith
  have hless : (c : ℚ) < low + 2 := by
    refine lt_of_mul_lt_mul_right ?_ hunit.le
    linarith
  have hmore' : (low : Int) - 1 < c := by exact_mod_cast hmore
  have hless' : (c : Int) < low + 2 := by exact_mod_cast hless
  omega

theorem multiple_of_le {scale : Int} (c : Nat) (h : scale ≤ e) :
    ∃ m : Nat, (c : ℚ) * 10 ^ e = m * 10 ^ scale := by
  obtain ⟨j, rfl⟩ : ∃ j : Nat, e = scale + j := ⟨(e - scale).toNat, by omega⟩
  refine ⟨c * 10 ^ j, ?_⟩
  rw [zpow_add₀ (by norm_num), zpow_natCast]
  push_cast
  ring

theorem ofScaled_error (h : ofScaled negative c e = .finite negative significand exponent) :
    |(c : ℚ) * 10 ^ e - significand * 2 ^ exponent| ≤ 2 ^ exponent / 2 := by
  rw [Decimal.ofScaled_eq] at h
  rw [← Decimal.quotient_eq]
  exact ofQuotient_error (power_pos (by decide) _) h

/-- A double with a full significand has its last place below the fifteenth decimal digit. -/
theorem lastPlace_lt (hfull : 2 ^ 52 ≤ significand) (hd : 0 < d)
    (hvalue : (n : ℚ) / d = significand * 2 ^ exponent) :
    (2 : ℚ) ^ exponent < 10 ^ (decimalOrder n d - 14) := by
  have hsignificand : (2 : ℚ) ^ 52 ≤ significand := by exact_mod_cast hfull
  have hpow : (0 : ℚ) < 2 ^ exponent := by positivity
  have hx : (0 : ℚ) < n / d := by
    rw [hvalue]
    positivity
  have hhigh := (decimalOrder_bounds (upper_pos hx) hd).2
  have hunit : (10 : ℚ) ^ (decimalOrder n d + 1) = 10 ^ (decimalOrder n d - 14) * 10 ^ 15 := by
    rw [← zpow_natCast, ← zpow_add₀ (by norm_num)]
    congr 1
    omega
  rw [hunit, hvalue] at hhigh
  nlinarith

theorem scale_le (hfull : 2 ^ 52 ≤ significand) (hd : 0 < d)
    (hvalue : (n : ℚ) / d = significand * 2 ^ exponent) (hc : c < 10 ^ 15)
    (hreads : ofScaled false c e = .finite false significand exponent) :
    decimalOrder n d - 14 ≤ e := by
  by_contra hlt
  have hsignificand : (2 : ℚ) ^ 52 ≤ significand := by exact_mod_cast hfull
  have hpow : (0 : ℚ) < 2 ^ exponent := by positivity
  have hx : (0 : ℚ) < n / d := by
    rw [hvalue]
    positivity
  have hlow := (decimalOrder_bounds (upper_pos hx) hd).1
  have hunit : (10 : ℚ) ^ decimalOrder n d = 10 ^ (decimalOrder n d - 15) * 10 ^ 15 := by
    rw [← zpow_natCast, ← zpow_add₀ (by norm_num)]
    congr 1
    omega
  -- the decimal stays a unit below the power of ten that the double has reached
  have hbelow : (c : ℚ) * 10 ^ e ≤ (10 ^ 15 - 1) * 10 ^ (decimalOrder n d - 15) := by
    have hdigits : (c : ℚ) + 1 ≤ 10 ^ 15 := by exact_mod_cast hc
    gcongr
    · linarith
    · norm_num
    · omega
  have hclose : (2 : ℚ) ^ exponent ≤ significand * 2 ^ exponent / 2 ^ 52 := by
    rw [le_div_iff₀ (by norm_num), mul_comm]
    gcongr
  have herror := (abs_le.mp (ofScaled_error hreads)).1
  rw [hunit, hvalue] at hlow
  generalize (10 : ℚ) ^ (decimalOrder n d - 15) = unit at hlow hbelow
  generalize (2 : ℚ) ^ exponent = place at *
  linarith

theorem shortest_fifteen (h : Proper significand exponent) (hfull : 2 ^ 52 ≤ significand)
    (hd : 0 < d) (hvalue : (n : ℚ) / d = significand * 2 ^ exponent) (hc : c < 10 ^ 15)
    (hreads : ofScaled false c e = .finite false significand exponent) :
    ((shortest n d).1 : ℚ) * 10 ^ (shortest n d).2 = c * 10 ^ e := by
  have hself : ofQuotient false n d = .finite false significand exponent :=
    ofQuotient_self h hd hvalue
  have hplace := lastPlace_lt hfull hd hvalue
  have hunit : (0 : ℚ) < 10 ^ (decimalOrder n d - 14) := by positivity
  -- what is rounded to the double is closer to it than half a unit
  have hclose : ∀ {k : Nat} {f : Int},
      ofScaled false k f = .finite false significand exponent →
        |(k : ℚ) * 10 ^ f - n / d| < 10 ^ (decimalOrder n d - 14) / 2 := by
    intro k f hk
    rw [hvalue]
    have herror := ofScaled_error hk
    linarith
  obtain ⟨m, hm⟩ := multiple_of_le c (scale_le hfull hd hvalue hc hreads)
  have hreads' : ofScaled false m (decimalOrder n d - 14) = ofQuotient false n d := by
    rw [hself, ← hreads, Decimal.ofScaled_congr hm.symm]
  have hnear := hclose hreads
  rw [hm] at hnear ⊢
  obtain ⟨extra, hextra, hscale, hfound⟩ :=
    shortest_hit (k := 14) (by decide)
      (neighbour?_isSome (neighbour_of_close hd hnear) hreads')
  have hcoarser : decimalOrder n d - 14 ≤ (shortest n d).2 := by omega
  obtain ⟨k, hk⟩ := multiple_of_le (shortest n d).1 hcoarser
  have hwritten := hclose ((neighbour?_reads hfound).trans hself)
  rw [hk] at hwritten ⊢
  rw [multiples_eq hunit hwritten hnear]

theorem shortest_seventeen (h : Proper significand exponent) (hs : 0 < significand) (hd : 0 < d)
    (hvalue : (n : ℚ) / d = significand * 2 ^ exponent) : (shortest n d).1 ≤ 10 ^ 17 := by
  obtain ⟨extra, hextra, hscale, hfound⟩ := shortest_found h hs hd hvalue
  have hx : (0 : ℚ) < n / d := by
    rw [hvalue]
    positivity
  have hhigh := (decimalOrder_bounds (upper_pos hx) hd).2
  have hunit : (0 : ℚ) < 10 ^ (shortest n d).2 := by positivity
  have hlow := (low_bounds (n := n) hd (shortest n d).2).1
  have hneighbour := (neighbour?_some hfound).1
  generalize n * power 10 (-(shortest n d).2) / (d * power 10 (shortest n d).2) = low
    at hlow hneighbour
  have hless : (low : ℚ) < 10 ^ 17 := by
    refine lt_of_mul_lt_mul_right ?_ hunit.le
    calc (low : ℚ) * 10 ^ (shortest n d).2 ≤ n / d := hlow
      _ < 10 ^ (decimalOrder n d + 1) := hhigh
      _ ≤ 10 ^ ((17 : Nat) + (shortest n d).2 : Int) :=
        zpow_le_zpow_right₀ (by norm_num) (by omega)
      _ = 10 ^ 17 * 10 ^ (shortest n d).2 := by rw [zpow_add₀ (by norm_num), zpow_natCast]
  have hbound : low < 10 ^ 17 := by exact_mod_cast hless
  omega

end Binary64

namespace Decimal

open Binary64 (Proper bound near near_below near_mono ofQuotient_eq ofQuotient_error
  ofQuotient_proper ofQuotient_sign tooLarge)

variable {negative : Bool} {c : Nat} {e : Int}

theorem least_full : (2 : ℚ) ^ 52 * 2 ^ Binary64.leastExponent ≤ 10 ^ (-307 : Int) := by
  have hnat : (10 : Nat) ^ 307 ≤ 2 ^ 1022 := by decide +kernel
  have hcast : (10 : ℚ) ^ 307 ≤ 2 ^ 1022 := by exact_mod_cast hnat
  have hleast : (2 : ℚ) ^ 52 * 2 ^ Binary64.leastExponent = 2 ^ (-(1022 : Nat) : Int) := by
    rw [← zpow_natCast, ← zpow_add₀ (by norm_num)]
    rfl
  have hten : (10 : ℚ) ^ (-307 : Int) = 10 ^ (-(307 : Nat) : Int) := rfl
  rw [hleast, hten, zpow_neg, zpow_neg, zpow_natCast, zpow_natCast]
  exact inv_anti₀ (by positivity) hcast

/-- From `10 ^ (-307)` up to below `10 ^ 308` every number is rounded to a double with a full
significand. -/
theorem ofScaled_full (hc : 0 < c) (hlow : -307 ≤ adjusted c e) (hhigh : adjusted c e ≤ 307) :
    ∃ s f, Proper s f ∧ 2 ^ 52 ≤ s ∧ ∀ negative,
      Binary64.ofScaled negative c e = .finite negative s f := by
  obtain ⟨habove, hbelow⟩ := adjusted_bounds hc e
  have hn : 0 < c * power 10 e := Nat.mul_pos hc (power_pos (by decide) e)
  have hd : 0 < power 10 (-e) := power_pos (by decide) _
  have hsmall : near (c * power 10 e) (power 10 (-e)) < bound := by
    refine (near_mono hd Nat.one_pos ?_).trans_lt near_below
    have hlarge : 10 ^ 308 ≤ tooLarge - 1 := by decide +kernel
    rw [quotient_eq, Nat.cast_one, div_one]
    calc (c : ℚ) * 10 ^ e ≤ 10 ^ (adjusted c e + 1) := hbelow.le
      _ ≤ 10 ^ ((308 : Nat) : Int) := zpow_le_zpow_right₀ (by norm_num) (by omega)
      _ = 10 ^ 308 := zpow_natCast _ _
      _ ≤ (tooLarge - 1 : Nat) := by exact_mod_cast hlarge
  have hmade := ofQuotient_eq hn hd false
  have hcases : Binary64.ofQuotient false (c * power 10 e) (power 10 (-e)) = .infinity false ∨ _ :=
    ofQuotient_proper hn hd
  rcases hcases with hinf | ⟨s, f, hproper, hfinite⟩
  · rw [hinf] at hmade
    rcases hmade with ⟨-, hrat⟩ | ⟨hle, -⟩
    · cases hrat
    · exact absurd hsmall (not_lt.mpr hle)
  · refine ⟨s, f, hproper, ?_, fun negative => ?_⟩
    · -- a short significand has the least exponent, and then the number is below the bound
      by_contra hshort
      obtain rfl : f = Binary64.leastExponent := by
        have hleast := hproper.least
        have hfull := hproper.full
        omega
      have herror := (abs_le.mp (ofQuotient_error hd hfinite)).2
      have hs : (s : ℚ) + 1 ≤ 2 ^ 52 := by exact_mod_cast not_le.mp hshort
      have hten : (10 : ℚ) ^ (-307 : Int) ≤ c * 10 ^ e :=
        (zpow_le_zpow_right₀ (by norm_num) hlow).trans habove
      have hle := least_full
      rw [quotient_eq] at herror
      have hplace : (0 : ℚ) < 2 ^ Binary64.leastExponent := zpow_pos (by norm_num) _
      generalize (2 : ℚ) ^ Binary64.leastExponent = place at *
      nlinarith
    · rw [ofScaled_eq]
      exact ofQuotient_sign hfinite

/-- A decimal of up to fifteen digits is what its nearest double is written as, if that has a full
significand. -/
theorem literal_fifteen (hc : c < 10 ^ 15) (hlow : -307 ≤ adjusted c e)
    (hhigh : adjusted c e ≤ 307) : (finite negative c e).Literal := by
  rcases c.eq_zero_or_pos with rfl | hpos
  · rw [Literal, toBinary64, Binary64.ofScaled, if_pos rfl]
    cases negative <;> rfl
  · obtain ⟨s, f, hproper, hfull, hmade⟩ := ofScaled_full hpos hlow hhigh
    have hs : 0 < s := lt_of_lt_of_le (by decide) hfull
    obtain ⟨k, g, hwritten, hvalue⟩ := ofShortest_finite negative f hs
    have hsame := Binary64.shortest_fifteen hproper hfull (power_pos (by decide) (-f))
      (Binary64.magnitude_eq s f) hc (hmade false)
    rw [Literal, toBinary64, hmade, hwritten,
      equal_iff (toRat?_finite negative k g) (toRat?_finite negative c e), hvalue, hsame]

/-- What a double is written as has up to seventeen digits that are no zeros at the end. -/
theorem digits_of_literal (h : (finite negative c e).Literal) :
    ∃ (m : Nat) (f : Int), m < 10 ^ 17 ∧ (c : ℚ) * 10 ^ e = m * 10 ^ f := by
  rcases c.eq_zero_or_pos with rfl | hc
  · exact ⟨0, 0, by decide, by simp⟩
  rcases toBinary64_cases negative c e with hinf | ⟨s, f, hproper, hmade⟩
  · rw [Literal, hinf] at h
    cases negative <;> cases h
  · have hvalue := toRat?_finite negative c e
    rw [Literal, hmade] at h
    rcases s.eq_zero_or_pos with rfl | hs
    · have hzero := (equal_iff (toRat?_finite negative 0 (-1)) hvalue).mp h
      rw [Nat.cast_zero, zero_mul, Binary64.signed_zero, eq_comm, Binary64.signed_eq_zero] at hzero
      exact ⟨0, 0, by decide, by simpa using hzero⟩
    · obtain ⟨k, g, hwritten, hshortest⟩ := ofShortest_finite negative f hs
      rw [hwritten, equal_iff (toRat?_finite negative k g) hvalue] at h
      have hsame : (k : ℚ) * 10 ^ g = c * 10 ^ e := by
        cases negative <;> simpa [Binary64.signed] using h
      have hbound := Binary64.shortest_seventeen hproper hs (power_pos (by decide) (-f))
        (Binary64.magnitude_eq s f)
      rw [← hsame, hshortest]
      generalize Binary64.shortest (s * power 2 f) (power 2 (-f)) = found at hbound ⊢
      rcases hbound.lt_or_eq with hless | hequal
      · exact ⟨found.1, found.2, hless, rfl⟩
      · refine ⟨1, (17 : Nat) + found.2, by decide, ?_⟩
        rw [hequal, zpow_add₀ (by norm_num), zpow_natCast, Nat.cast_one, one_mul]
        push_cast
        rfl

end Decimal

end Rehearsal
