import Rehearsal.Proofs.Fallible
import Rehearsal.Proofs.Time.Millis

/-! Times given in milliseconds since the epoch. Every number of milliseconds whose time has a year
of the calendar gives a time. Its microseconds are those of the seconds in doubles to the nearest, and
although a double has not room for all of them, they lead back to the same seconds. -/

namespace Rehearsal

theorem CalendarDay.year_ofNumber (day : Int) (hlow : -719162 ≤ day) (hhigh : day ≤ 2932896) :
    1 ≤ (ofNumber day).year ∧ (ofNumber day).year ≤ 9999 := by
  simp only [ofNumber, Int.fdiv_eq_ediv_of_nonneg _ (by decide : (0 : Int) ≤ 146097),
    Int.fdiv_eq_ediv_of_nonneg _ (by decide : (0 : Int) ≤ 1460),
    Int.fdiv_eq_ediv_of_nonneg _ (by decide : (0 : Int) ≤ 36524),
    Int.fdiv_eq_ediv_of_nonneg _ (by decide : (0 : Int) ≤ 146096),
    Int.fdiv_eq_ediv_of_nonneg _ (by decide : (0 : Int) ≤ 365),
    Int.fdiv_eq_ediv_of_nonneg _ (by decide : (0 : Int) ≤ 4),
    Int.fdiv_eq_ediv_of_nonneg _ (by decide : (0 : Int) ≤ 100),
    Int.fdiv_eq_ediv_of_nonneg _ (by decide : (0 : Int) ≤ 153)]
  split_ifs <;> omega

namespace Instant

open Binary64

variable {q : ℚ} {x : Binary64}

theorem exists_carried (whole micros : Int) (hlow : -1000000 ≤ micros) (hhigh : micros ≤ 1000000) :
    ∃ whole' micros',
      (if 1000000 ≤ micros then (whole + 1, micros - 1000000)
        else if micros < 0 then (whole - 1, micros + 1000000) else (whole, micros)) =
          (whole', micros') ∧
      whole' * 1000000 + micros' = whole * 1000000 + micros ∧ 0 ≤ micros' ∧ micros' < 1000000 := by
  split_ifs
  · exact ⟨_, _, rfl, by omega, by omega, by omega⟩
  · exact ⟨_, _, rfl, by omega, by omega, by omega⟩
  · exact ⟨_, _, rfl, by omega, by omega, by omega⟩

theorem int_le_of_sub_one_lt {a b : Int} (h : (a : ℚ) - 1 < b) : a ≤ b := by
  have hint : a - 1 < b := by exact_mod_cast h
  omega

theorem exists_micros (hq : |q| < 2 ^ (1023 : Int)) (hx : x.toRat? = some (rounded q))
    (hwhole : (towardZero (rounded q)).natAbs < 2 ^ 53) :
    ∃ m : Int,
      ((x - Binary64.ofInt (towardZero (rounded q))) * Binary64.ofNat 1000000).nearestInt? =
        some m ∧
      |(m : ℚ) - (rounded q - towardZero (rounded q)) * 1000000| ≤ 1 / 2 + 1 / 2 ^ 34 := by
  set s := rounded q with hs
  set w := towardZero s with hw
  obtain ⟨hone, -⟩ := sub_towardZero s
  have hlarge : (2 : ℚ) ^ (20 : Int) < 2 ^ (1023 : Int) :=
    zpow_lt_zpow_right₀ (by norm_num) (by decide)
  have hfraction : (x - Binary64.ofInt w).toRat? = some (s - w) := by
    have hdiff := toRat?_sub hx (toRat?_ofInt hwhole)
      (hone.trans (one_lt_zpow₀ (by norm_num) (by decide)))
    rwa [hs, hw, rounded_fraction hq] at hdiff
  have hscaled : |(s - w) * (1000000 : Nat)| < 2 ^ (20 : Int) := by
    rw [abs_mul]
    norm_num
    linarith
  obtain ⟨m, hm, hclose⟩ := nearestInt?_close
    (toRat?_mul hfraction (toRat?_ofNat (n := 1000000) (by decide)) (hscaled.trans hlarge))
  have hround := rounded_close (k := 20) (by decide) (by decide) hscaled
  refine ⟨m, hm, (abs_sub_le _ _ _).trans (add_le_add hclose ?_)⟩
  norm_num at hround ⊢
  exact hround

theorem ofEpochSeconds_eq {w m : Int} (hw : x.truncate? = some w)
    (hm : ((x - Binary64.ofInt w) * Binary64.ofNat 1000000).nearestInt? = some m)
    (hmicros : -1000000 ≤ m ∧ m ≤ 1000000) (hlow : -62135596800000000 ≤ w * 1000000 + m)
    (hhigh : w * 1000000 + m ≤ 253402300799999999) :
    ofEpochSeconds x = .ok (ofEpochMicros (w * 1000000 + m)) := by
  obtain ⟨whole, micros, hcarried, hsum, hnonneg, hless⟩ :=
    exists_carried w m hmicros.1 hmicros.2
  have hyear := CalendarDay.year_ofNumber (Int.fdiv whole 86400)
    (by rw [Int.fdiv_eq_ediv_of_nonneg _ (by decide)]; omega)
    (by rw [Int.fdiv_eq_ediv_of_nonneg _ (by decide)]; omega)
  simp only [ofEpochSeconds, hw, hm, Option.getD_some, hcarried]
  rw [if_neg (by omega), if_neg (by omega), if_neg (by omega), ← hsum]

/-- Seconds within the calendar give a time, which is theirs to the nearest microsecond, but for what
rounding the microseconds of a fraction may add. -/
theorem ofEpochSeconds_ok (hq : |q| < 2 ^ (1023 : Int)) (hx : x.toRat? = some (rounded q))
    (hlow : -62135596800 ≤ rounded q) (hhigh : rounded q * 1000000 ≤ 253402300799999998) :
    ∃ micros : Int, ofEpochSeconds x = .ok (ofEpochMicros micros) ∧
      |(micros : ℚ) - rounded q * 1000000| ≤ 1 / 2 + 1 / 2 ^ 34 := by
  obtain ⟨hone, -⟩ := sub_towardZero (rounded q)
  obtain ⟨hfraclow, hfrachigh⟩ := abs_lt.mp hone
  have hwlow : -62135596800 ≤ towardZero (rounded q) :=
    int_le_of_sub_one_lt (by push_cast; linarith)
  have hwhigh : towardZero (rounded q) ≤ 253402300800 :=
    int_le_of_sub_one_lt (by push_cast; linarith)
  obtain ⟨m, hm, hclose⟩ := exists_micros hq hx (by omega)
  have htotal : |((towardZero (rounded q) * 1000000 + m : Int) : ℚ) - rounded q * 1000000| ≤
      1 / 2 + 1 / 2 ^ 34 := by
    have hsame : ((towardZero (rounded q) * 1000000 + m : Int) : ℚ) - rounded q * 1000000 =
        m - (rounded q - towardZero (rounded q)) * 1000000 := by
      push_cast
      ring
    rwa [hsame]
  -- both parts and their sum stay within the calendar
  refine ⟨_, ofEpochSeconds_eq (truncate?_eq hx) hm ⟨?_, ?_⟩ ?_ ?_, htotal⟩
  · have hbound := (abs_le.mp hclose).1
    norm_num at hbound
    exact int_le_of_sub_one_lt (by push_cast; linarith)
  · have hbound := (abs_le.mp hclose).2
    norm_num at hbound
    exact int_le_of_sub_one_lt (by push_cast; linarith)
  · have hbound := (abs_le.mp htotal).1
    norm_num at hbound
    exact int_le_of_sub_one_lt (by push_cast; linarith)
  · have hbound := (abs_le.mp htotal).2
    norm_num at hbound
    exact int_le_of_sub_one_lt (by push_cast; linarith)

theorem micros_of_close {n micros : Int} (hnear : |(n : ℚ) / 1000| < 2 ^ (33 : Int))
    (hclose : |(micros : ℚ) - Millis.seconds n * 1000000| ≤ 1 / 2 + 1 / 2 ^ 34) :
    micros = 1000 * n := by
  have hrounded := rounded_close (k := 33) (by decide) (by decide) hnear
  rw [← Millis.seconds] at hrounded
  have hless : |(((micros - 1000 * n : Int)) : ℚ)| < 1 := by
    have hsplit : (((micros - 1000 * n : Int)) : ℚ) =
        (micros - Millis.seconds n * 1000000) + (Millis.seconds n - n / 1000) * 1000000 := by
      push_cast
      ring
    rw [hsplit]
    refine (abs_add_le _ _).trans_lt ?_
    rw [abs_mul, abs_of_pos (by norm_num : (0 : ℚ) < 1000000)]
    norm_num at hclose hrounded ⊢
    linarith
  have hzero : micros - 1000 * n = 0 := Int.abs_lt_one_iff.mp (by exact_mod_cast hless)
  omega

/-- Far out, doubles reach a power of two that is a whole number, and so do their microseconds. -/
theorem power_le_micros {s : ℚ} {micros e : Int} (he : -20 < e) (hreach : (2 : ℚ) ^ (e + 52) ≤ |s|)
    (hclose : |(micros : ℚ) - s * 1000000| ≤ 1 / 2 + 1 / 2 ^ 34) :
    (2 : ℚ) ^ (e + 52) ≤ |(micros : ℚ) / 1000000| := by
  obtain ⟨k, hk⟩ := Int.eq_ofNat_of_zero_le (by omega : 0 ≤ e + 52)
  rw [hk, zpow_natCast] at hreach ⊢
  have hwhole : 2 ^ k * 1000000 ≤ |micros| := by
    have hbelow := (abs_le.mp ((abs_abs_sub_abs_le_abs_sub _ _).trans hclose)).1
    rw [abs_mul, abs_of_pos (by norm_num : (0 : ℚ) < 1000000)] at hbelow
    norm_num at hbelow
    refine int_le_of_sub_one_lt ?_
    rw [Int.cast_abs]
    push_cast
    linarith
  have hcast : ((2 ^ k * 1000000 : Int) : ℚ) ≤ ((|micros| : Int) : ℚ) := by exact_mod_cast hwhole
  rw [abs_div, abs_of_pos (by norm_num : (0 : ℚ) < 1000000), le_div_iff₀ (by norm_num),
    ← Int.cast_abs]
  push_cast at hcast ⊢
  exact hcast

/-- Farther out a double has not room for all microseconds, but those of a double are nearest to
it. -/
theorem rounded_of_close_micros {n micros : Int} (hfar : 2 ^ (33 : Int) ≤ |Millis.seconds n|)
    (hsmall : |(n : ℚ) / 1000| < 2 ^ (1000 : Int))
    (hclose : |(micros : ℚ) - Millis.seconds n * 1000000| ≤ 1 / 2 + 1 / 2 ^ 34)
    (hmicros : |(micros : ℚ) / 1000000| < 2 ^ (1023 : Int)) :
    rounded ((micros : ℚ) / 1000000) = Millis.seconds n := by
  obtain ⟨m, e, hm, he, hfull, hform⟩ := exists_rounded_form
    (hsmall.trans (zpow_lt_zpow_right₀ (by norm_num) (by decide : (1000 : Int) < 1023)))
  rw [← Millis.seconds] at hform
  -- seconds that far out have their last place above a `2 ^ 20`th
  have hexponent : -20 < e := by
    have hpower := (zpow_lt_zpow_iff_right₀ (by norm_num : (1 : ℚ) < 2)).mp
      (hfar.trans_lt (hform ▸ form_lt hm))
    omega
  have hleast : leastExponent < e := by
    simp only [leastExponent]
    omega
  rw [hform]
  refine rounded_of_close hm he
    (power_le_micros hexponent (hform ▸ le_form (hfull hleast)) hclose) hmicros ?_
  rw [← hform]
  have hhalf : (2 : ℚ) ^ (-20 : Int) ≤ 2 ^ e / 2 := by
    rw [two_zpow_half]
    exact zpow_le_zpow_right₀ (by norm_num) (by omega)
  have hdiff : (micros : ℚ) / 1000000 - Millis.seconds n =
      (micros - Millis.seconds n * 1000000) / 1000000 := by
    field_simp
  refine lt_of_lt_of_le ?_ hhalf
  rw [hdiff, abs_div, abs_of_pos (by norm_num : (0 : ℚ) < 1000000), div_lt_iff₀ (by norm_num)]
  refine hclose.trans_lt ?_
  norm_num

theorem ofEpochMillis_ok {n : Int} (hlow : -62135596800000 ≤ n) (hhigh : n ≤ 253402300799999) :
    ∃ t, ofEpochMillis n = .ok t ∧ t.epochMillis = Millis.kept n ∧
      (|(n : ℚ) / 1000| < 2 ^ (33 : Int) → t.epochMicros = 1000 * n) := by
  have hlow' : (-62135596800000 : ℚ) ≤ n := by exact_mod_cast hlow
  have hhigh' : (n : ℚ) ≤ 253402300799999 := by exact_mod_cast hhigh
  have hplain : |(n : ℚ)| < 2 ^ (48 : Int) := by
    rw [abs_lt]
    norm_num
    constructor <;> linarith
  have hn : |(n : ℚ)| < 2 ^ (1000 : Int) :=
    hplain.trans (zpow_lt_zpow_right₀ (by norm_num) (by decide))
  have hthousandth : |(n : ℚ) / 1000| < 2 ^ (38 : Int) := by
    rw [abs_lt]
    norm_num
    constructor <;> linarith
  have hrounded := rounded_close (k := 38) (by decide) (by decide) hthousandth
  have hquotient : |(n : ℚ) / 1000| < 2 ^ (1023 : Int) :=
    hthousandth.trans (zpow_lt_zpow_right₀ (by norm_num) (by decide))
  have hbelow : -62135596800 ≤ rounded ((n : ℚ) / 1000) := by
    have hfirst := rounded_intCast (m := -62135596800) (by decide)
    push_cast at hfirst
    rw [← hfirst]
    exact rounded_mono (by linarith)
  have habove : rounded ((n : ℚ) / 1000) * 1000000 ≤ 253402300799999998 := by
    have hupper := (abs_le.mp hrounded).2
    norm_num at hupper
    linarith
  have hvalue := toRat?_ofInt (i := n) (by omega)
  have hseconds := toRat?_div hvalue
    (toRat?_ofNat (n := 1000) (by decide)) (by norm_num) (by exact_mod_cast hquotient)
  push_cast at hseconds
  obtain ⟨micros, hmade, hclose⟩ := ofEpochSeconds_ok hquotient hseconds hbelow habove
  have hmicros : |(micros : ℚ) / 1000000| < 2 ^ (1023 : Int) := by
    have hlarge : (2 : ℚ) ^ (39 : Int) < 2 ^ (1023 : Int) :=
      zpow_lt_zpow_right₀ (by norm_num) (by decide)
    refine lt_of_lt_of_le ?_ hlarge.le
    have hbounds := abs_le.mp hclose
    rw [abs_lt]
    norm_num at hbounds ⊢
    constructor <;> linarith
  -- near the epoch the microseconds are exact, farther out they are nearest to the double
  have hback : rounded ((micros : ℚ) / 1000000) = Millis.seconds n := by
    rcases lt_or_ge |(n : ℚ) / 1000| (2 ^ (33 : Int)) with hnear | hfar
    · rw [micros_of_close hnear hclose, Millis.seconds]
      congr 1
      push_cast
      ring
    · exact rounded_of_close_micros (two_zpow_le_rounded (by decide) (by decide) hfar)
        (Millis.thousandth_small hn) hclose hmicros
  refine ⟨ofEpochMicros micros, ?_, Millis.epochMillis_ofEpochMicros hn hmicros hback, ?_⟩
  · rw [ofEpochMillis, ofIntChecked_ok hvalue, ok_bind, hmade]
    rfl
  · intro hnear
    rw [← micros_of_close hnear hclose]
    simp [epochMicros, ofEpochMicros]

end Instant

end Rehearsal
