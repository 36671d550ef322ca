import Mathlib.Algebra.Order.Floor.Semifield
import Rehearsal.Proofs.Number.Nearest

/-! Arithmetic of doubles as arithmetic of exact numbers that rounds once. Rounding is off by a
`2 ^ 53`th part at most and keeps every number that a double can be, so a difference that lost no
digits is exact; and a double is cut to an integer as its value is. -/

namespace Rehearsal.Binary64

variable {n d : Nat} {q p : ℚ} {k e : Int} {x y : Binary64}

theorem abs_eq_quotient (q : ℚ) : (q.num.natAbs : ℚ) / q.den = |q| := by
  rw [Nat.cast_natAbs, Int.cast_abs, ← Nat.abs_cast q.den, ← abs_div, Rat.num_div_den]

theorem signed_abs (q : ℚ) : signed (decide (q < 0)) |q| = q := by
  rcases lt_or_ge q 0 with hq | hq
  · simp [signed, hq, abs_of_neg hq]
  · simp [signed, not_lt.mpr hq, abs_of_nonneg hq]

theorem signed_sub (negative : Bool) (u v : ℚ) :
    |signed negative u - signed negative v| = |u - v| := by
  cases negative
  · rfl
  · rw [signed, signed, if_pos rfl, if_pos rfl, neg_sub_neg, abs_sub_comm]

theorem natAbs_num_pos (hq : q ≠ 0) : 0 < q.num.natAbs :=
  Int.natAbs_pos.mpr (Rat.num_ne_zero.mpr hq)

theorem near_error (hd : 0 < d) :
    |near n d - n / d| ≤ 2 ^ lastPlace n d / 2 := by
  refine scaled_close (by positivity) ?_
  rw [← scaled_eq]
  exact roundQuotient_close (scaled_pos hd)

theorem two_zpow_half (k : Int) : (2 : ℚ) ^ k / 2 = 2 ^ (k - 1) := by
  rw [zpow_sub₀ (by norm_num), zpow_one]

theorem near_close (hk : leastExponent + 53 ≤ k) (h : |q| < 2 ^ k) :
    abs (near q.num.natAbs q.den - |q|) ≤ 2 ^ (k - 54) := by
  rcases eq_or_ne q 0 with rfl | hq
  · simp only [Rat.num_zero, Int.natAbs_zero, near_zero, abs_zero, sub_zero]
    positivity
  have hlog : Int.log 2 |q| < k :=
    (Int.lt_zpow_iff_log_lt (b := 2) (by decide) (abs_pos.mpr hq)).mp (by exact_mod_cast h)
  have hplace : lastPlace q.num.natAbs q.den ≤ k - 53 := by
    rw [lastPlace_eq (natAbs_num_pos hq) q.den_pos, abs_eq_quotient]
    omega
  calc abs (near q.num.natAbs q.den - |q|) ≤ 2 ^ lastPlace q.num.natAbs q.den / 2 := by
        have herror := near_error (n := q.num.natAbs) q.den_pos
        rwa [abs_eq_quotient] at herror
    _ ≤ 2 ^ (k - 53) / 2 := by
        gcongr
        norm_num
    _ = 2 ^ (k - 54) := by
        rw [two_zpow_half]
        congr 1
        ring

theorem near_lt_bound (h : |q| < 2 ^ (1023 : Int)) : near q.num.natAbs q.den < bound := by
  have hclose := near_close (k := 1023) (by decide) h
  have hsmall : (2 : ℚ) ^ (1023 - 54 : Int) ≤ 2 ^ (1023 : Int) :=
    zpow_le_zpow_right₀ (by norm_num) (by decide)
  have htwice : bound = 2 ^ (1023 : Int) + 2 ^ (1023 : Int) := by
    rw [bound, ← two_mul, ← two_zpow_succ]
    rfl
  have hupper := (abs_le.mp hclose).2
  linarith

theorem rounded_eq_near (h : |q| < 2 ^ (1023 : Int)) :
    rounded q = signed (decide (q < 0)) (near q.num.natAbs q.den) := by
  rw [rounded, min_eq_right (near_lt_bound h).le]

theorem rounded_zero : rounded 0 = 0 := by
  simp [rounded, near_zero, bound_pos.le, signed]

theorem rounded_neg (q : ℚ) : rounded (-q) = -rounded q := by
  rcases lt_trichotomy q 0 with hq | rfl | hq
  · simp [rounded, signed, hq, hq.le, not_lt.mpr]
  · simp [rounded_zero]
  · simp [rounded, signed, hq, hq.le, not_lt.mpr]

theorem rounded_close (hk : leastExponent + 53 ≤ k) (hk' : k ≤ 1023) (h : |q| < 2 ^ k) :
    |rounded q - q| ≤ 2 ^ (k - 54) := by
  have hlarge : |q| < 2 ^ (1023 : Int) :=
    h.trans_le (zpow_le_zpow_right₀ (by norm_num) hk')
  have hsplit : rounded q - q =
      signed (decide (q < 0)) (near q.num.natAbs q.den) - signed (decide (q < 0)) |q| := by
    rw [signed_abs, rounded_eq_near hlarge]
  rw [hsplit, signed_sub]
  exact near_close hk h

/-- Rounding is off by a `2 ^ 53`th part at most, unless a number is too small for that. -/
theorem rounded_error (hlow : 2 ^ (-1022 : Int) ≤ |q|) (hhigh : |q| < 2 ^ (1022 : Int)) :
    |rounded q - q| ≤ |q| / 2 ^ 53 := by
  have hpos : 0 < |q| := lt_of_lt_of_le (by positivity) hlow
  have hleast : -1022 ≤ Int.log 2 |q| :=
    (Int.zpow_le_iff_le_log (b := 2) (by decide) hpos).mp (by exact_mod_cast hlow)
  have hgreatest : Int.log 2 |q| < 1022 :=
    (Int.lt_zpow_iff_log_lt (b := 2) (by decide) hpos).mp (by exact_mod_cast hhigh)
  have habove : |q| < 2 ^ (Int.log 2 |q| + 1) := by
    exact_mod_cast Int.lt_zpow_succ_log_self (b := 2) (by decide) |q|
  have hbelow : (2 : ℚ) ^ Int.log 2 |q| ≤ |q| := by
    exact_mod_cast Int.zpow_log_le_self (b := 2) (by decide) hpos
  calc |rounded q - q| ≤ 2 ^ (Int.log 2 |q| + 1 - 54) :=
        rounded_close (by simp only [leastExponent]; omega) (by omega) habove
    _ = 2 ^ Int.log 2 |q| / 2 ^ 53 := by
        rw [add_sub_assoc, zpow_add₀ (by norm_num)]
        norm_num
        ring
    _ ≤ |q| / 2 ^ 53 := by gcongr

theorem abs_form (m e : Int) : |(m : ℚ) * 2 ^ e| = (m.natAbs : ℚ) * 2 ^ e := by
  rw [abs_mul, abs_of_pos (by positivity : (0 : ℚ) < 2 ^ e), Nat.cast_natAbs, Int.cast_abs]

theorem form_lt {m : Int} (hm : m.natAbs < 2 ^ 53) : |(m : ℚ) * 2 ^ e| < 2 ^ (e + 53) := by
  have hcast : (m.natAbs : ℚ) < 2 ^ (53 : Int) := by exact_mod_cast hm
  rw [abs_form, zpow_add₀ (by norm_num), mul_comm]
  gcongr

theorem le_form {m : Int} (hm : 2 ^ 52 ≤ m.natAbs) : 2 ^ (e + 52) ≤ |(m : ℚ) * 2 ^ e| := by
  have hcast : (2 : ℚ) ^ (52 : Int) ≤ m.natAbs := by exact_mod_cast hm
  rw [abs_form, zpow_add₀ (by norm_num), mul_comm]
  gcongr

theorem rounded_exact {m : Int} (hm : m.natAbs < 2 ^ 53) (he : leastExponent ≤ e)
    (h : |(m : ℚ) * 2 ^ e| < 2 ^ (1023 : Int)) : rounded (m * 2 ^ e) = m * 2 ^ e := by
  set q : ℚ := m * 2 ^ e with hq
  rcases eq_or_ne q 0 with hzero | hne
  · rw [hzero, rounded_zero]
  have hplace : lastPlace q.num.natAbs q.den ≤ e := by
    have hlog : Int.log 2 |q| < e + 53 :=
      (Int.lt_zpow_iff_log_lt (b := 2) (by decide) (abs_pos.mpr hne)).mp
        (by exact_mod_cast form_lt hm)
    rw [lastPlace_eq (natAbs_num_pos hne) q.den_pos, abs_eq_quotient]
    omega
  -- in units of the last place it is a whole number
  set place := lastPlace q.num.natAbs q.den with hlast
  have hwhole : ((m.natAbs * power 2 (e - place) : Nat) : ℚ) * 2 ^ place = |q| := by
    have hpower : (power 2 (e - place) : ℚ) = 2 ^ (e - place) := by
      rw [← power_two_div, power_of_nonpos 2 (by omega : -(e - place) ≤ 0), Nat.cast_one, div_one]
    push_cast
    rw [hpower, mul_assoc, ← zpow_add₀ (by norm_num), sub_add_cancel, hq, abs_form]
  have hunits : units q.num.natAbs q.den place = m.natAbs * power 2 (e - place) := by
    refine units_eq q.den_pos ?_
    rw [abs_eq_quotient, hwhole, sub_self, abs_zero]
    positivity
  rw [rounded_eq_near h, near, ← hlast, hunits, hwhole, signed_abs]

theorem rounded_intCast {m : Int} (hm : m.natAbs < 2 ^ 53) : rounded m = m := by
  have hsmall : |(m : ℚ)| < 2 ^ (1023 : Int) := by
    have hcast : ((m.natAbs : Nat) : ℚ) < 2 ^ (53 : Int) := by exact_mod_cast hm
    rw [Nat.cast_natAbs, Int.cast_abs] at hcast
    exact hcast.trans_le (zpow_le_zpow_right₀ (by norm_num) (by decide))
  have hexact := rounded_exact (e := 0) hm (by decide) (by simpa using hsmall)
  simpa using hexact

theorem two_zpow_le_rounded (hk : leastExponent ≤ k) (hk' : k < 1023) (h : 2 ^ k ≤ |q|) :
    2 ^ k ≤ |rounded q| := by
  have hpower : rounded (2 ^ k) = 2 ^ k := by
    have hsmall : |((1 : Int) : ℚ) * 2 ^ k| < 2 ^ (1023 : Int) := by
      rw [Int.cast_one, one_mul, abs_of_pos (by positivity)]
      exact zpow_lt_zpow_right₀ (by norm_num) hk'
    simpa using rounded_exact (m := 1) (by decide) hk hsmall
  rcases le_abs.mp h with hpos | hneg
  · rw [← hpower]
    exact (rounded_mono hpos).trans (le_abs_self _)
  · rw [← hpower]
    refine (rounded_mono hneg).trans ?_
    rw [rounded_neg]
    exact neg_le_abs _

theorem toRat?_ofRat (h : |q| < 2 ^ (1023 : Int)) (negativeZero : Bool) :
    (ofRat negativeZero q).toRat? = some (rounded q) := by
  rw [ofRat]
  split_ifs with hzero
  · obtain rfl := Rat.num_eq_zero.mp hzero
    rw [rounded_zero, zero, toRat?_finite, Nat.cast_zero, zero_mul, signed_zero]
  · have hneg : decide (q.num < 0) = decide (q < 0) := by simp
    have hpos : 0 < q.num.natAbs := Int.natAbs_pos.mpr hzero
    rcases ofQuotient_eq hpos q.den_pos (decide (q.num < 0)) with ⟨-, hmade⟩ | ⟨hle, -⟩
    · rw [hmade, rounded_eq_near h, hneg]
    · exact absurd (near_lt_bound h) (not_lt.mpr hle)

theorem exists_rounded_form (h : |q| < 2 ^ (1023 : Int)) :
    ∃ (m e : Int), m.natAbs < 2 ^ 53 ∧ leastExponent ≤ e ∧
      (leastExponent < e → 2 ^ 52 ≤ m.natAbs) ∧ rounded q = m * 2 ^ e := by
  rcases eq_or_ne q 0 with rfl | hne
  · exact ⟨0, leastExponent, by decide, le_rfl, fun h => absurd h (lt_irrefl _),
      by simp [rounded_zero]⟩
  have hmade := toRat?_ofRat h false
  rw [ofRat, if_neg (Rat.num_ne_zero.mpr hne)] at hmade
  obtain hlarge | ⟨significand, exponent, hproper, hfinite⟩ :
      ofQuotient (q.num < 0) q.num.natAbs q.den = .infinity (q.num < 0) ∨ _ :=
    ofQuotient_proper (natAbs_num_pos hne) q.den_pos
  · rw [hlarge] at hmade
    cases hmade
  · rw [hfinite, toRat?_finite] at hmade
    refine ⟨if q.num < 0 then -(significand : Int) else significand, exponent, ?_, hproper.least,
      ?_, ?_⟩
    · split_ifs <;> simpa using hproper.short
    · intro hleast
      split_ifs <;> simpa using hproper.full hleast
    · rw [← Option.some.inj hmade, signed]
      by_cases hneg : q.num < 0 <;> simp [hneg]

theorem rounded_of_close {m : Int} (hm : m.natAbs < 2 ^ 53) (he : leastExponent ≤ e)
    (hlow : (2 : ℚ) ^ (e + 52) ≤ |q|) (hsmall : |q| < 2 ^ (1023 : Int))
    (hclose : |q - m * 2 ^ e| < 2 ^ e / 2) : rounded q = m * 2 ^ e := by
  have hpow : (0 : ℚ) < 2 ^ e := by positivity
  have hne : q ≠ 0 := by
    rintro rfl
    rw [abs_zero] at hlow
    exact absurd hlow (not_le.mpr (by positivity))
  have hdiff : abs (|q| - (m.natAbs : ℚ) * 2 ^ e) < 2 ^ e / 2 := by
    rw [← abs_form]
    exact (abs_abs_sub_abs_le_abs_sub _ _).trans_lt hclose
  have hshort : (m.natAbs : ℚ) + 1 ≤ 2 ^ (53 : Int) := by exact_mod_cast hm
  have hhigh : |q| < 2 ^ (e + 53) := by
    have hupper := (abs_lt.mp hdiff).2
    rw [zpow_add₀ (by norm_num)]
    nlinarith
  have hlast : lastPlace q.num.natAbs q.den = e := by
    have hlog : Int.log 2 |q| = e + 52 := by
      refine log_eq (abs_pos.mpr hne) hlow ?_
      rwa [add_assoc]
    rw [lastPlace_eq (natAbs_num_pos hne) q.den_pos, abs_eq_quotient, hlog]
    omega
  have hunits : units q.num.natAbs q.den e = m.natAbs := by
    refine units_eq q.den_pos ?_
    rwa [abs_eq_quotient]
  -- numbers that far from zero have one sign if they are that close
  have hlarge : (2 : ℚ) ^ e / 2 < |q| := by
    refine lt_of_lt_of_le ?_ hlow
    rw [zpow_add₀ (by norm_num)]
    norm_num
    linarith
  have hsign : (q < 0) ↔ (m : ℚ) * 2 ^ e < 0 := by
    have hbounds := abs_lt.mp hclose
    constructor
    · intro hq
      rw [abs_of_neg hq] at hlarge
      linarith
    · intro hm'
      by_contra hq
      rw [abs_of_nonneg (not_lt.mp hq)] at hlarge
      linarith
  calc rounded q = signed (decide (q < 0)) ((m.natAbs : ℚ) * 2 ^ e) := by
        rw [rounded_eq_near hsmall, near, hlast, hunits]
    _ = signed (decide ((m : ℚ) * 2 ^ e < 0)) |(m : ℚ) * 2 ^ e| := by
        rw [abs_form, decide_eq_decide.mpr hsign]
    _ = m * 2 ^ e := signed_abs _

theorem toRat?_mul (hx : x.toRat? = some p) (hy : y.toRat? = some q)
    (h : |p * q| < 2 ^ (1023 : Int)) : (x * y).toRat? = some (rounded (p * q)) := by
  cases x with
  | nan => cases hx
  | infinity negative => cases hx
  | finite a s e =>
    cases y with
    | nan => cases hy
    | infinity negative => cases hy
    | finite b t f =>
      change (mul (.finite a s e) (.finite b t f)).toRat? = _
      simp only [mul, hx, hy]
      exact toRat?_ofRat h _

theorem toRat?_div (hx : x.toRat? = some p) (hy : y.toRat? = some q) (hq : q ≠ 0)
    (h : |p / q| < 2 ^ (1023 : Int)) : (x / y).toRat? = some (rounded (p / q)) := by
  cases x with
  | nan => cases hx
  | infinity negative => cases hx
  | finite a s e =>
    cases y with
    | nan => cases hy
    | infinity negative => cases hy
    | finite b t f =>
      change (div (.finite a s e) (.finite b t f)).toRat? = _
      simp only [div, hx, hy, Rat.num_eq_zero, if_neg hq]
      exact toRat?_ofRat h _

theorem toRat?_ofNat (h : n < 2 ^ 53) : (ofNat n).toRat? = some (n : ℚ) := by
  have hcast := toRat?_ofInt (i := n) (by simpa using h)
  rwa [Int.cast_natCast] at hcast

theorem toRat?_neg (hx : x.toRat? = some p) : x.neg.toRat? = some (-p) := by
  cases x with
  | nan => cases hx
  | infinity negative => cases hx
  | finite negative s e =>
    rw [toRat?_finite] at hx
    obtain rfl := Option.some.inj hx
    rw [neg, toRat?_finite]
    cases negative <;> simp [signed]

theorem toRat?_sub (hx : x.toRat? = some p) (hy : y.toRat? = some q)
    (h : |p - q| < 2 ^ (1023 : Int)) : (x - y).toRat? = some (rounded (p - q)) := by
  change (sub x y).toRat? = _
  rw [sub, add_eq hx (toRat?_neg hy), ← sub_eq_add_neg]
  exact toRat?_ofRat h _

/-- The integer next to a number on the side of zero. -/
def towardZero (q : ℚ) : Int := if q < 0 then -(⌊-q⌋₊ : Int) else ⌊q⌋₊

theorem towardZero_of_nonneg (hq : 0 ≤ q) : towardZero q = ⌊q⌋₊ := if_neg (not_lt.mpr hq)

theorem towardZero_neg (q : ℚ) : towardZero (-q) = -towardZero q := by
  rcases lt_trichotomy q 0 with hq | rfl | hq
  · simp [towardZero, hq, hq.le, not_lt.mpr]
  · simp [towardZero]
  · simp [towardZero, hq, hq.le, not_lt.mpr]

theorem towardZero_intCast (m : Int) : towardZero m = m := by
  have hnat : ∀ k : Nat, towardZero (k : Int) = k := by
    intro k
    rw [Int.cast_natCast, towardZero_of_nonneg k.cast_nonneg, Nat.floor_natCast]
  obtain ⟨k, rfl | rfl⟩ := m.eq_nat_or_neg
  · exact hnat k
  · rw [Int.cast_neg, towardZero_neg, hnat]

theorem sub_towardZero (q : ℚ) : |q - towardZero q| < 1 ∧ |q - towardZero q| ≤ |q| := by
  have hnonneg : ∀ r : ℚ, 0 ≤ r → |r - towardZero r| < 1 ∧ |r - towardZero r| ≤ |r| := by
    intro r hr
    have hle := Nat.floor_le hr
    have hlt := Nat.lt_floor_add_one r
    have hfloor : (0 : ℚ) ≤ ⌊r⌋₊ := Nat.cast_nonneg _
    rw [towardZero_of_nonneg hr, Int.cast_natCast, abs_of_nonneg (by linarith), abs_of_nonneg hr]
    constructor <;> linarith
  rcases le_total 0 q with hq | hq
  · exact hnonneg q hq
  · have hsame : q - towardZero q = -(-q - towardZero (-q)) := by
      rw [towardZero_neg]
      push_cast
      ring
    have hpositive := hnonneg (-q) (neg_nonneg.mpr hq)
    rwa [hsame, abs_neg, ← abs_neg q]

theorem rounded_fraction (h : |q| < 2 ^ (1023 : Int)) :
    rounded (rounded q - towardZero (rounded q)) = rounded q - towardZero (rounded q) := by
  obtain ⟨m, e, hm, he, -, hform⟩ := exists_rounded_form h
  obtain ⟨hone, hwithin⟩ := sub_towardZero (rounded q)
  set w := towardZero (rounded q) with hw
  have hpow : (0 : ℚ) < 2 ^ e := by positivity
  rcases le_or_gt 0 e with hnonneg | hneg
  · -- a whole number has no fraction
    obtain ⟨k, rfl⟩ := Int.eq_ofNat_of_zero_le hnonneg
    have hwhole : rounded q - w = ((m * 2 ^ k - w : Int) : ℚ) := by
      rw [hform]
      push_cast
      norm_cast
    have hzero : m * 2 ^ k - w = 0 := by
      rw [hwhole] at hone
      exact Int.abs_lt_one_iff.mp (by exact_mod_cast hone)
    rw [hwhole, hzero, Int.cast_zero, rounded_zero]
  · have hdigits : rounded q - w = ((m - w * 2 ^ (-e).toNat : Int) : ℚ) * 2 ^ e := by
      have hback : (2 : ℚ) ^ (-e).toNat * 2 ^ e = 1 := by
        rw [← zpow_natCast, ← zpow_add₀ (by norm_num), Int.toNat_of_nonneg (by omega),
          neg_add_cancel, zpow_zero]
      rw [hform]
      push_cast
      rw [sub_mul, mul_assoc, hback, mul_one]
    have hshort : (m - w * 2 ^ (-e).toNat).natAbs < 2 ^ 53 := by
      rw [hdigits, hform, abs_mul, abs_mul, mul_le_mul_iff_of_pos_right (abs_pos.mpr hpow.ne'),
        ← Int.cast_abs, ← Int.cast_abs, Int.cast_le, Int.abs_eq_natAbs,
        Int.abs_eq_natAbs] at hwithin
      omega
    rw [hdigits]
    refine rounded_exact hshort he ?_
    rw [← hdigits]
    exact hone.trans (one_lt_zpow₀ (by norm_num) (by decide))

theorem truncate?_eq (hx : x.toRat? = some q) : x.truncate? = some (towardZero q) := by
  cases x with
  | nan => cases hx
  | infinity negative => cases hx
  | finite negative s e =>
    rw [toRat?_finite] at hx
    obtain rfl := Option.some.inj hx
    have hfloor : s * power 2 e / power 2 (-e) = ⌊(s : ℚ) * 2 ^ e⌋₊ := by
      rw [← magnitude_eq, Nat.floor_div_eq_div]
    have hsize : (0 : ℚ) ≤ s * 2 ^ e := by positivity
    simp only [truncate?, magnitude, hfloor, towardZero]
    cases negative with
    | false => simp [signed, not_lt.mpr hsize]
    | true =>
      rcases hsize.eq_or_lt with hzero | hpos
      · simp [signed, ← hzero]
      · simp [signed, hpos]

theorem nearestInt?_close (hx : x.toRat? = some q) :
    ∃ m : Int, x.nearestInt? = some m ∧ |(m : ℚ) - q| ≤ 1 / 2 := by
  cases x with
  | nan => cases hx
  | infinity negative => cases hx
  | finite negative s e =>
    rw [toRat?_finite] at hx
    obtain rfl := Option.some.inj hx
    have hclose : |(roundQuotient (s * power 2 e) (power 2 (-e)) : ℚ) - s * 2 ^ e| ≤ 1 / 2 := by
      rw [← magnitude_eq]
      exact roundQuotient_close (power_pos (by decide) _)
    refine ⟨_, rfl, ?_⟩
    cases negative with
    | false => simpa [signed] using hclose
    | true =>
      rw [← abs_neg]
      simpa [signed, sub_eq_add_neg, add_comm] using hclose

end Rehearsal.Binary64
