import Rehearsal.Proofs.Number.Rounding

/-! Rounding to the nearest double looks only at the value of a quotient. It gives every double in
one form, and it gives a double back for everything that is closer to it than half of its last
place, and closer than a `2 ^ 54`th part of it. -/

namespace Rehearsal

theorem roundQuotient_bounds {n d : Nat} (hd : 0 < d) :
    2 * roundQuotient n d * d ≤ 2 * n + d ∧ 2 * n ≤ 2 * roundQuotient n d * d + d := by
  have hn := Nat.div_add_mod n d
  have hr := Nat.mod_lt n hd
  simp only [roundQuotient]
  generalize n / d = q at *
  generalize n % d = r at *
  subst hn
  split_ifs with hdown hup
  · constructor <;> nlinarith
  · constructor <;> nlinarith
  · have hhalf : 2 * r = d := by omega
    have hodd : q % 2 < 2 := Nat.mod_lt q (by decide)
    generalize q % 2 = u at *
    obtain rfl | rfl : u = 0 ∨ u = 1 := by omega
    all_goals constructor <;> nlinarith

theorem roundQuotient_close {n d : Nat} (hd : 0 < d) :
    |(roundQuotient n d : ℚ) - n / d| ≤ 1 / 2 := by
  obtain ⟨hlow, hhigh⟩ := roundQuotient_bounds (n := n) hd
  have hdpos : (0 : ℚ) < d := by exact_mod_cast hd
  have hlow' : 2 * (roundQuotient n d : ℚ) * d ≤ 2 * n + d := by exact_mod_cast hlow
  have hhigh' : 2 * (n : ℚ) ≤ 2 * roundQuotient n d * d + d := by exact_mod_cast hhigh
  rw [abs_le]
  constructor
  · rw [neg_le_sub_iff_le_add, div_le_iff₀ hdpos]
    linarith
  · rw [sub_le_iff_le_add, ← sub_le_iff_le_add', le_div_iff₀ hdpos]
    linarith

theorem scaled_close {c x unit : ℚ} (hunit : 0 < unit) (h : |c - x / unit| ≤ 1 / 2) :
    |c * unit - x| ≤ unit / 2 := by
  have hback : c * unit - x = (c - x / unit) * unit := by
    field_simp
  rw [hback, abs_mul, abs_of_pos hunit]
  nlinarith

theorem upper_pos {n d : Nat} (h : 0 < (n : ℚ) / d) : 0 < n := by
  rcases n.eq_zero_or_pos with rfl | hn
  · simp at h
  · exact hn

namespace Binary64

variable {n d n' d' m significand : Nat} {place exponent : Int} {negative : Bool}

theorem signed_zero (negative : Bool) : signed negative 0 = 0 := by
  cases negative <;> simp [signed]

theorem signed_eq_zero {u : ℚ} : signed negative u = 0 ↔ u = 0 := by
  cases negative <;> simp [signed]

theorem signed_inj {a b : Bool} {u v : ℚ} (hu : 0 < u) (hv : 0 < v) :
    signed a u = signed b v ↔ a = b ∧ u = v := by
  cases a <;> cases b <;> simp [signed]
  · intro h
    linarith
  · intro h
    linarith

theorem units_congr (hd : 0 < d) (hd' : 0 < d') (h : (n : ℚ) / d = n' / d') :
    units n d place = units n' d' place :=
  le_antisymm (units_mono hd hd' h.le) (units_mono hd' hd h.ge)

theorem units_eq (hd : 0 < d) (h : |(n : ℚ) / d - m * 2 ^ place| < 2 ^ place / 2) :
    units n d place = m := by
  have hpow : (0 : ℚ) < 2 ^ place := by positivity
  have hround : |(units n d place : ℚ) - n / d / 2 ^ place| ≤ 1 / 2 := by
    rw [← scaled_eq]
    exact roundQuotient_close (scaled_pos hd)
  have hclose : |(n : ℚ) / d / 2 ^ place - m| < 1 / 2 := by
    have hback : (n : ℚ) / d / 2 ^ place - m = (n / d - m * 2 ^ place) / 2 ^ place := by
      field_simp
    rw [hback, abs_div, abs_of_pos hpow, div_lt_iff₀ hpow]
    linarith
  have hone : |((units n d place : ℤ) - (m : ℤ) : ℚ)| < 1 := by
    have htriangle := abs_sub_le (units n d place : ℚ) (n / d / 2 ^ place) m
    push_cast
    linarith
  have hzero : (units n d place : ℤ) - m = 0 := Int.abs_lt_one_iff.mp (by exact_mod_cast hone)
  omega

theorem lastPlace_congr (hn : 0 < n) (hd : 0 < d) (hn' : 0 < n') (hd' : 0 < d')
    (h : (n : ℚ) / d = n' / d') : lastPlace n d = lastPlace n' d' := by
  rw [lastPlace_eq hn hd, lastPlace_eq hn' hd', h]

theorem ofQuotient_congr (hd : 0 < d) (hd' : 0 < d') (h : (n : ℚ) / d = n' / d')
    (negative : Bool) : ofQuotient negative n d = ofQuotient negative n' d' := by
  have hzero : n = 0 ↔ n' = 0 := by
    have hdpos : (d : ℚ) ≠ 0 := by exact_mod_cast hd.ne'
    have hdpos' : (d' : ℚ) ≠ 0 := by exact_mod_cast hd'.ne'
    constructor
    · rintro rfl
      simpa [hdpos'] using h.symm
    · rintro rfl
      simpa [hdpos] using h
  rcases n.eq_zero_or_pos with rfl | hn
  · rw [hzero.mp rfl, ofQuotient, ofQuotient, if_pos rfl, if_pos rfl]
  · have hn' : 0 < n' := Nat.pos_of_ne_zero fun h0 => hn.ne' (hzero.mpr h0)
    rw [ofQuotient_units hn, ofQuotient_units hn', lastPlace_congr hn hd hn' hd' h,
      units_congr hd hd' h]

/-- The parts of a double in its one form: the significand is as long as it may be, unless the
exponent is the least. -/
structure Proper (significand : Nat) (exponent : Int) : Prop where
  short : significand < 2 ^ 53
  least : leastExponent ≤ exponent
  greatest : exponent ≤ greatestExponent
  full : leastExponent < exponent → 2 ^ 52 ≤ significand

theorem proper_zero : Proper 0 leastExponent := by
  refine ⟨by decide, le_rfl, by decide, ?_⟩
  intro h
  exact absurd h (lt_irrefl _)

theorem Proper.zero_exponent (h : Proper 0 exponent) : exponent = leastExponent := by
  by_contra hne
  have hfull := h.full (lt_of_le_of_ne h.least (Ne.symm hne))
  omega

/-- A quotient that is not too large becomes a double in its one form. -/
theorem ofQuotient_proper (hn : 0 < n) (hd : 0 < d) :
    ofQuotient negative n d = .infinity negative ∨
      ∃ significand exponent, Proper significand exponent ∧
        ofQuotient negative n d = .finite negative significand exponent := by
  have hleast : leastExponent ≤ lastPlace n d := by
    rw [lastPlace_eq hn hd]
    exact le_max_right _ _
  rw [ofQuotient_units hn]
  by_cases hs : units n d (lastPlace n d) = power 2 53
  · rw [if_pos hs]
    dsimp only
    split_ifs with hplace
    · exact .inl rfl
    · refine .inr ⟨_, _, ⟨by decide, by omega, not_lt.mp hplace, fun _ => le_rfl⟩, rfl⟩
  · rw [if_neg hs]
    dsimp only
    split_ifs with hplace
    · exact .inl rfl
    · refine .inr ⟨_, _, ⟨?_, hleast, not_lt.mp hplace, half_le_units hn hd⟩, rfl⟩
      exact lt_of_le_of_ne (units_le_full hn hd) hs

theorem ofQuotient_sign (h : ofQuotient false n d = .finite false significand exponent) :
    ofQuotient negative n d = .finite negative significand exponent := by
  rcases n.eq_zero_or_pos with rfl | hn
  · rw [ofQuotient, if_pos rfl] at h ⊢
    cases h
    rfl
  · rw [ofQuotient_units hn] at h ⊢
    generalize (if units n d (lastPlace n d) = power 2 53 then (power 2 52, lastPlace n d + 1)
      else (units n d (lastPlace n d), lastPlace n d)) = parts at h ⊢
    dsimp only at h ⊢
    split_ifs at h ⊢
    cases h
    rfl

theorem ofQuotient_in_place (hn : 0 < n) (hlast : lastPlace n d = exponent)
    (hunits : units n d exponent = significand) (hshort : significand < 2 ^ 53)
    (hgreatest : exponent ≤ greatestExponent) :
    ofQuotient negative n d = .finite negative significand exponent := by
  have hfits : significand ≠ power 2 53 := hshort.ne
  rw [ofQuotient_units hn, hlast, hunits, if_neg hfits]
  dsimp only
  rw [if_neg (not_lt.mpr hgreatest)]

theorem ofQuotient_carry (hn : 0 < n) (hlast : lastPlace n d + 1 = exponent)
    (hunits : units n d (lastPlace n d) = 2 ^ 53) (hgreatest : exponent ≤ greatestExponent) :
    ofQuotient negative n d = .finite negative (2 ^ 52) exponent := by
  have hcarry : units n d (lastPlace n d) = power 2 53 := hunits
  rw [ofQuotient_units hn, if_pos hcarry, hlast]
  dsimp only
  rw [if_neg (not_lt.mpr hgreatest)]
  rfl

theorem two_zpow_succ (place : Int) : (2 : ℚ) ^ (place + 1) = 2 * 2 ^ place := by
  rw [zpow_add₀ (by norm_num), zpow_one, mul_comm]

theorem ofQuotient_below_power (hd : 0 < d) (hleast : leastExponent < exponent)
    (hgreatest : exponent ≤ greatestExponent) (habove : (2 : ℚ) ^ (exponent + 51) ≤ n / d)
    (hbelow : (n : ℚ) / d < 2 ^ (exponent + 52))
    (hclose : |(n : ℚ) / d - 2 ^ 52 * 2 ^ exponent| < 2 ^ exponent / 4) :
    ofQuotient negative n d = .finite negative (2 ^ 52) exponent := by
  have hx : (0 : ℚ) < n / d := lt_of_lt_of_le (by positivity) habove
  have hn : 0 < n := upper_pos hx
  have hlast : lastPlace n d = exponent - 1 := by
    rw [lastPlace_eq hn hd, log_eq (k := exponent + 51) hx habove (by rwa [add_assoc])]
    omega
  have htwice : (2 : ℚ) ^ exponent = 2 * 2 ^ (exponent - 1) := by
    rw [← two_zpow_succ, sub_add_cancel]
  refine ofQuotient_carry hn (by omega) ?_ hgreatest
  rw [hlast]
  refine units_eq hd ?_
  have hsame : ((2 ^ 53 : Nat) : ℚ) * 2 ^ (exponent - 1) = 2 ^ 52 * 2 ^ exponent := by
    rw [htwice]
    push_cast
    ring
  rw [hsame]
  linarith

/-- What is close to a double is rounded to it. It is rounded in the last place of the double, unless
the double is a power of two and the quotient less than it. -/
theorem ofQuotient_of_close (h : Proper significand exponent) (hs : 0 < significand) (hd : 0 < d)
    (hplace : |(n : ℚ) / d - significand * 2 ^ exponent| < 2 ^ exponent / 2)
    (hpart : |(n : ℚ) / d - significand * 2 ^ exponent| <
      significand * 2 ^ exponent / 2 ^ 54) :
    ofQuotient negative n d = .finite negative significand exponent := by
  have hpow : (0 : ℚ) < 2 ^ exponent := by positivity
  have hone : (1 : ℚ) ≤ significand := by exact_mod_cast hs
  have hshort : (significand : ℚ) + 1 ≤ 2 ^ 53 := by exact_mod_cast h.short
  obtain ⟨hlow, hhigh⟩ := abs_lt.mp hplace
  have hx : (0 : ℚ) < n / d := by nlinarith
  have hbelow : (n : ℚ) / d < 2 ^ (exponent + 53) := by
    rw [zpow_add₀ (by norm_num)]
    nlinarith
  have hlog : Int.log 2 ((n : ℚ) / d) < exponent + 53 :=
    (Int.lt_zpow_iff_log_lt (b := 2) (by decide) hx).mp (by exact_mod_cast hbelow)
  have hleast := h.least
  -- below a power of two the last place of the quotient is one lower than that of the double
  by_cases hunder : (n : ℚ) / d < 2 ^ (exponent + 52) ∧ exponent ≠ leastExponent
  · obtain ⟨hunder, hne⟩ := hunder
    have hmore : leastExponent < exponent := lt_of_le_of_ne hleast (Ne.symm hne)
    have hsignificand : significand = 2 ^ 52 := by
      have hlt : (significand : ℚ) < 2 ^ 52 + 1 := by
        rw [zpow_add₀ (by norm_num)] at hunder
        norm_num at hunder
        nlinarith
      have hlt' : significand < 2 ^ 52 + 1 := by exact_mod_cast hlt
      have hfull := h.full hmore
      omega
    subst hsignificand
    push_cast at hlow hpart
    refine ofQuotient_below_power hd hmore h.greatest ?_ hunder (by linarith)
    rw [zpow_add₀ (by norm_num)]
    nlinarith
  · have hlast : lastPlace n d = exponent := by
      rw [lastPlace_eq (upper_pos hx) hd]
      rcases not_and_or.mp hunder with hover | hleast'
      · have hlog' : exponent + 52 ≤ Int.log 2 ((n : ℚ) / d) :=
          (Int.zpow_le_iff_le_log (b := 2) (by decide) hx).mp (by exact_mod_cast not_lt.mp hover)
        omega
      · have := not_not.mp hleast'
        omega
    exact ofQuotient_in_place (upper_pos hx) hlast (units_eq hd hplace) h.short h.greatest

theorem ofQuotient_self (h : Proper significand exponent) (hd : 0 < d)
    (hvalue : (n : ℚ) / d = significand * 2 ^ exponent) :
    ofQuotient negative n d = .finite negative significand exponent := by
  have hpow : (0 : ℚ) < 2 ^ exponent := by positivity
  rcases significand.eq_zero_or_pos with rfl | hs
  · have hdpos : (d : ℚ) ≠ 0 := by exact_mod_cast hd.ne'
    have hn : n = 0 := by simpa [hdpos] using hvalue
    rw [hn, h.zero_exponent, ofQuotient, if_pos rfl, zero]
  · refine ofQuotient_of_close h hs hd ?_ ?_ <;>
    · rw [hvalue, sub_self, abs_zero]
      positivity

/-- A number other than zero is a double in one form only. -/
theorem Proper.unique {a b : Bool} {s t : Nat} {e f : Int} (h : Proper s e) (h' : Proper t f)
    (hvalue : signed a ((s : ℚ) * 2 ^ e) = signed b ((t : ℚ) * 2 ^ f)) :
    (a = b ∨ s = 0) ∧ s = t ∧ e = f := by
  have hform : (s : ℚ) * 2 ^ e = t * 2 ^ f → s = t ∧ e = f := by
    intro hsame
    have hpos : 0 < power 2 (-e) := power_pos (by decide) (-e)
    have hs : ofQuotient false (s * power 2 e) (power 2 (-e)) = .finite false s e :=
      ofQuotient_self h hpos (magnitude_eq s e)
    rw [ofQuotient_self h' hpos ((magnitude_eq s e).trans hsame)] at hs
    cases hs
    exact ⟨rfl, rfl⟩
  rcases s.eq_zero_or_pos with rfl | hs
  · refine ⟨.inr rfl, hform ?_⟩
    rw [Nat.cast_zero, zero_mul, signed_zero, eq_comm, signed_eq_zero] at hvalue
    rw [hvalue, Nat.cast_zero, zero_mul]
  · rcases t.eq_zero_or_pos with rfl | ht
    · rw [Nat.cast_zero, zero_mul, signed_zero, signed_eq_zero] at hvalue
      have hpos : (0 : ℚ) < s * 2 ^ e := by positivity
      exact absurd hvalue hpos.ne'
    · obtain ⟨hsign, hmagnitude⟩ := (signed_inj (by positivity) (by positivity)).mp hvalue
      exact ⟨.inl hsign, hform hmagnitude⟩

theorem ofQuotient_large (hd : 0 < d) (h : bound ≤ (n : ℚ) / d) :
    ofQuotient negative n d = .infinity negative := by
  have hx : (0 : ℚ) < n / d := bound_pos.trans_le h
  have hn : 0 < n := upper_pos hx
  have hlog : 1024 ≤ Int.log 2 ((n : ℚ) / d) := by
    refine (Int.zpow_le_iff_le_log (b := 2) (by decide) hx).mp ?_
    rw [Nat.cast_ofNat]
    exact h
  have hplace : greatestExponent < lastPlace n d := by
    rw [lastPlace_eq hn hd]
    simp only [greatestExponent]
    omega
  have hfull := half_le_units hn hd (lt_trans (by decide) hplace)
  rcases ofQuotient_eq hn hd negative with ⟨hlt, -⟩ | ⟨-, hmade⟩
  · exact absurd hlt (not_lt.mpr (bound_le hfull hplace))
  · exact hmade

theorem ofQuotient_small (hd : 0 < d) (h : (n : ℚ) / d < 2 ^ leastExponent / 2) :
    ofQuotient negative n d = zero negative := by
  rcases n.eq_zero_or_pos with rfl | hn
  · rw [ofQuotient, if_pos rfl]
  · have hx : (0 : ℚ) < n / d := by positivity
    have hlt : (n : ℚ) / d < 2 ^ (leastExponent - 1) := by
      rwa [zpow_sub₀ (by norm_num), zpow_one]
    have hlog : Int.log 2 ((n : ℚ) / d) < leastExponent - 1 :=
      (Int.lt_zpow_iff_log_lt (b := 2) (by decide) hx).mp (by exact_mod_cast hlt)
    have hlast : lastPlace n d = leastExponent := by
      rw [lastPlace_eq hn hd]
      omega
    refine ofQuotient_in_place hn hlast (units_eq hd ?_) (by decide) (by decide)
    simpa [abs_of_pos hx] using h

end Binary64

end Rehearsal
