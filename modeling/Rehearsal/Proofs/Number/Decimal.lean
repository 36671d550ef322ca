import Rehearsal.Number.Decimal
import Rehearsal.Proofs.Number.Nearest

/-! The exact values of decimals and doubles. Decimals and doubles are equal exactly if their values
are, and the double nearest to a decimal depends on its value alone. -/

namespace Rehearsal

namespace Binary64

variable {x y : Binary64} {p q : ℚ}

theorem equal_iff (hx : x.toRat? = some p) (hy : y.toRat? = some q) :
    equal x y = true ↔ p = q := by
  cases x with
  | nan => cases hx
  | infinity negative => cases hx
  | finite a s e =>
    cases y with
    | nan => cases hy
    | infinity negative => cases hy
    | finite b t f =>
      simp only [equal, compare?, hx, hy, beq_iff_eq, Option.some.injEq]
      split_ifs with hlt hgt
      · simp [hlt.ne]
      · simp [hgt.ne']
      · simpa using le_antisymm (not_lt.mp hgt) (not_lt.mp hlt)

theorem equal_comm (x y : Binary64) : equal x y = equal y x := by
  rw [Bool.eq_iff_iff]
  cases x with
  | nan => cases y <;> rfl
  | infinity a =>
    cases y with
    | nan => rfl
    | infinity b => cases a <;> cases b <;> rfl
    | finite b t f => cases a <;> simp [equal, compare?]
  | finite a s e =>
    cases y with
    | nan => rfl
    | infinity b => cases b <;> simp [equal, compare?]
    | finite b t f =>
      rw [equal_iff (toRat?_finite a s e) (toRat?_finite b t f),
        equal_iff (toRat?_finite b t f) (toRat?_finite a s e), eq_comm]

end Binary64

namespace Decimal

open Binary64 (signed)

variable {a b : Decimal} {p q : ℚ} {negative : Bool} {c c' : Nat} {e e' : Int}

theorem quotient_eq (c : Nat) (e : Int) :
    ((c * power 10 e : Nat) : ℚ) / power 10 (-e) = c * 10 ^ e := by
  exact_mod_cast scaled_power (by decide : 0 < 10) c e

theorem toRat?_finite (negative : Bool) (c : Nat) (e : Int) :
    toRat? (.finite negative c e) = some (signed negative (c * 10 ^ e)) := by
  simp only [toRat?, signed, Option.some.injEq, Rat.mkRat_eq_div, ← quotient_eq]
  cases negative
  · simp
  · simp [neg_div]

theorem digitCount_pos (c : Nat) : 0 < digitCount c := Nat.length_toDigits_pos

theorem lt_pow_digitCount (c : Nat) : c < 10 ^ digitCount c :=
  (Nat.length_toDigits_le_iff (by decide) (digitCount_pos c)).mp le_rfl

theorem pow_digitCount_le (hc : 0 < c) : 10 ^ (digitCount c - 1) ≤ c := by
  by_contra hlt
  by_cases hone : digitCount c = 1
  · rw [hone] at hlt
    omega
  · have hcount := digitCount_pos c
    have hless := (Nat.length_toDigits_le_iff (b := 10) (by decide) (by omega)).mpr (not_le.mp hlt)
    have hsame : (Nat.toDigits 10 c).length = digitCount c := rfl
    omega

theorem adjusted_bounds (hc : 0 < c) (e : Int) :
    (10 : ℚ) ^ adjusted c e ≤ c * 10 ^ e ∧ (c : ℚ) * 10 ^ e < 10 ^ (adjusted c e + 1) := by
  have hcount := digitCount_pos c
  have hlow : (10 : ℚ) ^ ((digitCount c : Int) - 1) ≤ c := by
    have hcast : ((digitCount c - 1 : Nat) : Int) = digitCount c - 1 := by omega
    rw [← hcast, zpow_natCast]
    exact_mod_cast pow_digitCount_le hc
  have hhigh : (c : ℚ) < 10 ^ (digitCount c : Int) := by exact_mod_cast lt_pow_digitCount c
  have hpow : (0 : ℚ) < 10 ^ e := by positivity
  constructor
  · calc (10 : ℚ) ^ adjusted c e = 10 ^ ((digitCount c : Int) - 1) * 10 ^ e := by
          rw [← zpow_add₀ (by norm_num), adjusted]
          congr 1
          ring
      _ ≤ c * 10 ^ e := by gcongr
  · calc (c : ℚ) * 10 ^ e < 10 ^ (digitCount c : Int) * 10 ^ e := by gcongr
      _ = 10 ^ (adjusted c e + 1) := by
          rw [← zpow_add₀ (by norm_num), adjusted]
          congr 1
          ring

theorem adjusted_mono (hc : 0 < c) (hc' : 0 < c') (h : (c : ℚ) * 10 ^ e ≤ c' * 10 ^ e') :
    adjusted c e ≤ adjusted c' e' := by
  have hlt := (adjusted_bounds hc e).1.trans_lt (h.trans_lt (adjusted_bounds hc' e').2)
  have hexp := (zpow_lt_zpow_iff_right₀ (by norm_num : (1 : ℚ) < 10)).mp hlt
  omega

theorem aligned_eq_iff : c * power 10 (e - e') = c' * power 10 (e' - e) ↔
    (c : ℚ) * 10 ^ e = c' * 10 ^ e' := by
  have hten : ((10 : Nat) : ℚ) ^ (e - e') = 10 ^ e / 10 ^ e' := by
    rw [← zpow_sub₀ (by norm_num)]
    norm_num
  have hdiv := power_div (by decide : 0 < 10) (e - e')
  have hpos : (0 : ℚ) < power 10 (e' - e) := by exact_mod_cast power_pos (by decide) _
  have hpow : (0 : ℚ) < 10 ^ e' := by positivity
  rw [hten, neg_sub, div_eq_div_iff hpos.ne' hpow.ne'] at hdiv
  rw [← Nat.cast_inj (R := ℚ)]
  push_cast
  constructor
  · intro h
    refine mul_right_cancel₀ hpos.ne' ?_
    calc (c : ℚ) * 10 ^ e * power 10 (e' - e) = c * (10 ^ e * power 10 (e' - e)) := by ring
      _ = c * power 10 (e - e') * 10 ^ e' := by rw [← hdiv]; ring
      _ = c' * 10 ^ e' * power 10 (e' - e) := by rw [h]; ring
  · intro h
    refine mul_right_cancel₀ hpow.ne' ?_
    calc (c : ℚ) * power 10 (e - e') * 10 ^ e' = c * (power 10 (e - e') * 10 ^ e') := by ring
      _ = c * 10 ^ e * power 10 (e' - e) := by rw [hdiv]; ring
      _ = c' * power 10 (e' - e) * 10 ^ e' := by rw [h]; ring

theorem compareMagnitude_eq_iff (hc : 0 < c) (hc' : 0 < c') :
    compareMagnitude c e c' e' = .eq ↔ (c : ℚ) * 10 ^ e = c' * 10 ^ e' := by
  rw [compareMagnitude, if_neg hc.ne', if_neg hc'.ne']
  split_ifs with hless hmore
  · refine iff_of_false (by decide) ?_
    intro h
    exact absurd (adjusted_mono hc' hc h.ge) (not_le.mpr hless)
  · refine iff_of_false (by decide) ?_
    intro h
    exact absurd (adjusted_mono hc hc' h.le) (not_le.mpr hmore)
  · rw [Nat.compare_eq_eq]
    exact aligned_eq_iff

theorem equal_iff (ha : a.toRat? = some p) (hb : b.toRat? = some q) : a.equal b = true ↔ p = q := by
  cases a with
  | nan => cases ha
  | infinity negative => cases ha
  | finite m c e =>
    cases b with
    | nan => cases hb
    | infinity negative => cases hb
    | finite n c' e' =>
      rw [toRat?_finite] at ha hb
      cases ha
      cases hb
      simp only [equal, compare?, beq_iff_eq]
      -- a zero is compared by its coefficient alone
      rcases c.eq_zero_or_pos with rfl | hc
      · rcases c'.eq_zero_or_pos with rfl | hc'
        · simp [Binary64.signed_zero]
        · have hvalue : (0 : ℚ) < c' * 10 ^ e' := by positivity
          have hne : signed n ((c' : ℚ) * 10 ^ e') ≠ 0 := mt Binary64.signed_eq_zero.mp hvalue.ne'
          cases n <;> simp [hc'.ne', Binary64.signed_zero, hne.symm]
      · have hvalue : (0 : ℚ) < c * 10 ^ e := by positivity
        rcases c'.eq_zero_or_pos with rfl | hc'
        · have hne : signed m ((c : ℚ) * 10 ^ e) ≠ 0 := mt Binary64.signed_eq_zero.mp hvalue.ne'
          cases m <;> simp [hc.ne', Binary64.signed_zero, hne]
        · have hvalue' : (0 : ℚ) < c' * 10 ^ e' := by positivity
          rw [Binary64.signed_inj hvalue hvalue']
          simp only [hc.ne', hc'.ne', false_and, if_false]
          cases m <;> cases n
          · simp [compareMagnitude_eq_iff hc hc']
          · simp
          · simp
          · rw [Option.some.injEq, compareMagnitude_eq_iff hc' hc, eq_comm]
            simp

theorem equal_iff_toRat? (ha : a.toRat? = some p) : a.equal b = true ↔ b.toRat? = some p := by
  cases hb : b.toRat? with
  | some q => rw [equal_iff ha hb, Option.some.injEq, eq_comm]
  | none =>
    refine iff_of_false ?_ nofun
    cases a with
    | nan => cases ha
    | infinity negative => cases ha
    | finite n c e =>
      cases b with
      | nan => nofun
      | infinity negative => cases negative <;> nofun
      | finite m c' e' =>
        rw [toRat?_finite] at hb
        cases hb

theorem two_zpow_le_ten {k : Int} (hk : 0 ≤ k) : (2 : ℚ) ^ (3 * k) ≤ 10 ^ k := by
  rw [zpow_mul]
  exact zpow_le_zpow_left₀ hk (by positivity) (by norm_num)

/-- The bounds on the order of a decimal only spare what is far too large or far too small for a
double. -/
theorem ofScaled_eq (negative : Bool) (c : Nat) (e : Int) : Binary64.ofScaled negative c e =
    Binary64.ofQuotient negative (c * power 10 e) (power 10 (-e)) := by
  have hpos : 0 < power 10 (-e) := power_pos (by decide) _
  rw [Binary64.ofScaled]
  rcases c.eq_zero_or_pos with rfl | hc
  · rw [if_pos rfl, Nat.zero_mul, Binary64.ofQuotient, if_pos rfl]
  · obtain ⟨hlow, hhigh⟩ := adjusted_bounds hc e
    have horder : ((Nat.toDigits 10 c).length : Int) + e = adjusted c e + 1 := by
      have hcount : (Nat.toDigits 10 c).length = digitCount c := rfl
      rw [hcount, adjusted]
      ring
    rw [if_neg hc.ne', horder]
    split_ifs with hlarge hsmall
    · refine (Binary64.ofQuotient_large hpos ?_).symm
      calc Binary64.bound ≤ 2 ^ (3 * 400 : Int) := zpow_le_zpow_right₀ (by norm_num) (by decide)
        _ ≤ 10 ^ (400 : Int) := two_zpow_le_ten (by decide)
        _ ≤ 10 ^ adjusted c e := zpow_le_zpow_right₀ (by norm_num) (by omega)
        _ ≤ _ := by rwa [quotient_eq]
    · refine (Binary64.ofQuotient_small hpos ?_).symm
      calc _ < (10 : ℚ) ^ (adjusted c e + 1) := by rwa [quotient_eq]
        _ ≤ 10 ^ (-401 : Int) := zpow_le_zpow_right₀ (by norm_num) (by omega)
        _ ≤ 2 ^ (-(3 * 401) : Int) := by
          rw [zpow_neg, zpow_neg]
          exact inv_anti₀ (by positivity) (two_zpow_le_ten (by decide))
        _ ≤ 2 ^ (Binary64.leastExponent - 1) := zpow_le_zpow_right₀ (by norm_num) (by decide)
        _ = 2 ^ Binary64.leastExponent / 2 := by rw [zpow_sub₀ (by norm_num), zpow_one]
    · rfl

theorem ofScaled_congr (h : (c : ℚ) * 10 ^ e = c' * 10 ^ e') (negative : Bool) :
    Binary64.ofScaled negative c e = Binary64.ofScaled negative c' e' := by
  rw [ofScaled_eq, ofScaled_eq]
  refine Binary64.ofQuotient_congr (power_pos (by decide) _) (power_pos (by decide) _) ?_ negative
  rw [quotient_eq, quotient_eq, h]

theorem toRat?_ofInt (n : Int) : (ofInt n).toRat? = some (n : ℚ) := by
  rw [ofInt, toRat?_finite, zpow_zero, mul_one, Nat.cast_natAbs, Int.cast_abs]
  rcases lt_or_ge n 0 with hn | hn
  · have hcast : (n : ℚ) < 0 := by exact_mod_cast hn
    simp [signed, hn, abs_of_neg hcast]
  · have hcast : (0 : ℚ) ≤ n := by exact_mod_cast hn
    simp [signed, not_lt.mpr hn, abs_of_nonneg hcast]

theorem toRat?_ofBinary64 (x : Binary64) : (ofBinary64 x).toRat? = x.toRat? := by
  cases x with
  | nan => rfl
  | infinity negative => rfl
  | finite negative s e =>
    rw [Binary64.toRat?_finite, ofBinary64]
    have htwo := power_div (by decide : 0 < 2) e
    split_ifs with he
    · rw [toRat?_finite, zpow_zero, mul_one]
      rw [power_of_nonpos 2 (by omega : -e ≤ 0)] at htwo
      push_cast at htwo ⊢
      rw [← htwo, div_one]
    · rw [toRat?_finite]
      have hfive : (power 5 (-e) : ℚ) * 5 ^ e = 1 := by
        have hdiv := power_div (by decide : 0 < 5) e
        have hpos : (0 : ℚ) < power 5 (-e) := by exact_mod_cast power_pos (by decide) _
        rw [power_of_nonpos 5 (by omega : e ≤ 0)] at hdiv
        push_cast at hdiv
        rw [← hdiv]
        field_simp
      have hten : (10 : ℚ) ^ e = 5 ^ e * 2 ^ e := by
        rw [← mul_zpow]
        norm_num
      push_cast
      rw [hten, mul_assoc, ← mul_assoc (power 5 (-e) : ℚ), hfive, one_mul]

end Decimal

end Rehearsal

/-! Which decimals are whole numbers. A decimal is read as an integer exactly if its value is that
integer, however many digits it has and wherever its exponent puts the point. -/

namespace Rehearsal.Decimal

open Binary64 (signed)

variable {c unit : Nat} {e : Int}

theorem signed_eq_intCast (negative : Bool) (x : ℚ) (n : Int) :
    signed negative x = n ↔ x = ((if negative then -n else n : Int) : ℚ) := by
  cases negative
  · simp [signed]
  · simp [signed, neg_eq_iff_eq_neg]

theorem quotient_eq_intCast (hunit : 0 < unit) (m : Int) :
    (c : ℚ) / unit = m ↔ c % unit = 0 ∧ ((c / unit : Nat) : Int) = m := by
  have hne : (unit : ℚ) ≠ 0 := by exact_mod_cast hunit.ne'
  rw [div_eq_iff hne]
  constructor
  · intro h
    have hmul : (c : Int) = m * unit := by exact_mod_cast h
    have hpos : (0 : Int) < unit := by exact_mod_cast hunit
    constructor
    · have hmod : ((c % unit : Nat) : Int) = 0 := by
        rw [Int.natCast_mod, hmul, Int.mul_emod_left]
      exact_mod_cast hmod
    · rw [Int.natCast_div, hmul, Int.mul_ediv_cancel _ hpos.ne']
  · rintro ⟨hmod, rfl⟩
    have hmul : c / unit * unit = c := Nat.div_mul_cancel (Nat.dvd_of_mod_eq_zero hmod)
    exact_mod_cast hmul.symm

theorem power_nonneg_exponent (he : 0 ≤ e) : ((c * power 10 e : Nat) : ℚ) = c * 10 ^ e := by
  rw [← quotient_eq, power_of_nonpos 10 (by omega : -e ≤ 0), Nat.cast_one, div_one]

theorem power_neg_exponent (he : e < 0) : (c : ℚ) / power 10 (-e) = c * 10 ^ e := by
  rw [← quotient_eq, power_of_nonpos 10 he.le, Nat.mul_one]

theorem mod_eq_self_of_digitCount (h : digitCount c ≤ (-e).toNat) :
    c % power 10 (-e) = c := by
  refine Nat.mod_eq_of_lt ((lt_pow_digitCount c).trans_le ?_)
  exact Nat.pow_le_pow_right (by decide) h

theorem toInt?_eq_some_iff (d : Decimal) (n : Int) :
    d.toInt? = some n ↔ d.toRat? = some (n : ℚ) := by
  cases d with
  | nan => exact ⟨nofun, nofun⟩
  | infinity negative => exact ⟨nofun, nofun⟩
  | finite negative c e =>
    have hsign : ∀ m : Nat, (if negative then -(m : Int) else m) = n ↔
        (m : Int) = if negative then -n else n := by
      intro m
      cases negative
      · simp
      · simp [neg_eq_iff_eq_neg]
    rw [toRat?_finite, Option.some_inj, signed_eq_intCast]
    simp only [toInt?]
    by_cases he : 0 ≤ e
    · rw [if_pos he, Option.some_inj, hsign, ← power_nonneg_exponent he]
      exact_mod_cast Iff.rfl
    · have hunit : 0 < power 10 (-e) := power_pos (by decide) _
      rw [if_neg he, ← power_neg_exponent (not_le.mp he), quotient_eq_intCast hunit, ← hsign]
      by_cases hzero : c = 0
      · subst hzero
        rw [if_pos rfl, Option.some_inj]
        simp
      rw [if_neg hzero]
      by_cases hfew : digitCount c ≤ (-e).toNat
      · -- all digits stand after the point, and one of them is not zero
        rw [if_pos hfew, mod_eq_self_of_digitCount hfew]
        simp [hzero]
      rw [if_neg hfew]
      by_cases hmod : c % power 10 (-e) = 0
      · rw [if_pos hmod, Option.some_inj]
        simp only [hmod, true_and]
      · simp [hmod]

end Rehearsal.Decimal
