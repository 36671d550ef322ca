import Mathlib.Algebra.Order.Field.Basic
import Mathlib.Algebra.Order.Field.Power
import Mathlib.Data.Int.Log
import Mathlib.Data.Rat.Floor
import Mathlib.Data.Rat.Lemmas
import Mathlib.Tactic.FieldSimp
import Mathlib.Tactic.Linarith
import Mathlib.Tactic.Ring
import Rehearsal.Number.Binary64

/-! Rounding to doubles keeps the order of numbers. Numbers with one last place are compared by
their integers in that place. A number with a lower last place than another rounds to a power of
two at most that the other does not fall below. A sum that is less than another as doubles is
therefore less than it in exact numbers. -/

namespace Rehearsal

theorem roundQuotient_mono {n d n' d' : Nat} (hd : 0 < d) (hd' : 0 < d') (h : n * d' ≤ n' * d) :
    roundQuotient n d ≤ roundQuotient n' d' := by
  have hn := Nat.div_add_mod n d
  have hn' := Nat.div_add_mod n' d'
  have hr := Nat.mod_lt n hd
  have hr' := Nat.mod_lt n' hd'
  have hq : n / d ≤ n' / d' := by
    rw [Nat.le_div_iff_mul_le hd']
    refine Nat.le_of_mul_le_mul_right ?_ hd
    calc n / d * d' * d = n / d * d * d' := by ring
      _ ≤ n * d' := Nat.mul_le_mul_right d' (Nat.div_mul_le_self n d)
      _ ≤ n' * d := h
  rcases hq.lt_or_eq with hlt | heq
  · have hup : roundQuotient n d ≤ n / d + 1 := by
      simp only [roundQuotient]
      split_ifs <;> omega
    have hdown : n' / d' ≤ roundQuotient n' d' := by
      simp only [roundQuotient]
      split_ifs <;> omega
    omega
  · -- with one integer part, the remainders are compared
    have hrest : n % d * d' ≤ n' % d' * d := by
      rw [← hn, ← hn', ← heq] at h
      nlinarith
    have hhalf : d ≤ 2 * (n % d) → d' ≤ 2 * (n' % d') := by
      intro hle
      refine Nat.le_of_mul_le_mul_right ?_ hd
      nlinarith
    have hmore : d < 2 * (n % d) → d' < 2 * (n' % d') := by
      intro hlt
      refine Nat.lt_of_mul_lt_mul_right (a := d) ?_
      nlinarith
    simp only [roundQuotient, ← heq]
    split_ifs <;> omega

theorem roundQuotient_mono_div {n d n' d' : Nat} (hd : 0 < d) (hd' : 0 < d')
    (h : (n : ℚ) / d ≤ n' / d') : roundQuotient n d ≤ roundQuotient n' d' := by
  rw [div_le_div_iff₀ (by exact_mod_cast hd) (by exact_mod_cast hd')] at h
  exact roundQuotient_mono hd hd' (by exact_mod_cast h)

theorem roundQuotient_one (n : Nat) : roundQuotient n 1 = n := by
  simp [roundQuotient, Nat.mod_one]

theorem power_div {base : Nat} (hbase : 0 < base) (e : Int) :
    (power base e : ℚ) / power base (-e) = (base : ℚ) ^ e := by
  have hne : (base : ℚ) ≠ 0 := by exact_mod_cast hbase.ne'
  rcases le_total 0 e with h | h
  · obtain ⟨k, rfl⟩ := Int.eq_ofNat_of_zero_le h
    rw [power_of_nonpos base (by omega : -(k : Int) ≤ 0)]
    simp [power]
  · obtain ⟨k, hk⟩ := Int.eq_ofNat_of_zero_le (by omega : 0 ≤ -e)
    obtain rfl : e = -k := by omega
    rw [power_of_nonpos base (by omega : -(k : Int) ≤ 0)]
    simp [power]

theorem scaled_power {base : Nat} (hbase : 0 < base) (n : Nat) (e : Int) :
    ((n * power base e : Nat) : ℚ) / power base (-e) = n * (base : ℚ) ^ e := by
  rw [← power_div hbase]
  push_cast
  ring

theorem power_two_div (e : Int) : (power 2 e : ℚ) / power 2 (-e) = (2 : ℚ) ^ e := by
  exact_mod_cast power_div (by decide : 0 < 2) e

namespace Binary64

/-- The integer nearest to `n / d` in units of `2 ^ place`. -/
def units (n d : Nat) (place : Int) : Nat :=
  roundQuotient (n * power 2 (-place)) (d * power 2 place)

variable {n d n' d' : Nat} {place : Int}

theorem scaled_eq (n d : Nat) (place : Int) :
    ((n * power 2 (-place) : Nat) : ℚ) / (d * power 2 place : Nat) = (n : ℚ) / d / 2 ^ place := by
  rw [← power_two_div]
  push_cast
  field_simp

theorem scaled_pos (hd : 0 < d) : 0 < d * power 2 place :=
  Nat.mul_pos hd (power_pos (by decide) place)

theorem units_mono (hd : 0 < d) (hd' : 0 < d') (h : (n : ℚ) / d ≤ n' / d') :
    units n d place ≤ units n' d' place := by
  refine roundQuotient_mono_div (scaled_pos hd) (scaled_pos hd') ?_
  rw [scaled_eq, scaled_eq]
  gcongr

theorem units_le (hd : 0 < d) {m : Nat} (h : (n : ℚ) / d ≤ m * 2 ^ place) :
    units n d place ≤ m := by
  rw [← roundQuotient_one m]
  refine roundQuotient_mono_div (scaled_pos hd) Nat.one_pos ?_
  rw [scaled_eq, Nat.cast_one, div_one, div_le_iff₀ (by positivity)]
  exact h

theorem le_units (hd : 0 < d) {m : Nat} (h : (m : ℚ) * 2 ^ place ≤ n / d) :
    m ≤ units n d place := by
  rw [← roundQuotient_one m]
  refine roundQuotient_mono_div Nat.one_pos (scaled_pos hd) ?_
  rw [scaled_eq, Nat.cast_one, div_one, le_div_iff₀ (by positivity)]
  exact h

theorem log_eq {x : ℚ} (hx : 0 < x) {k : Int} (hle : (2 : ℚ) ^ k ≤ x) (hlt : x < 2 ^ (k + 1)) :
    Int.log 2 x = k := by
  have hlow := (Int.zpow_le_iff_le_log (b := 2) (by decide) hx).mp (by exact_mod_cast hle)
  have hhigh := (Int.lt_zpow_iff_log_lt (b := 2) (by decide) hx).mp (by exact_mod_cast hlt)
  omega

theorem quotient_bounds (hn : 0 < n) (hd : 0 < d) :
    (2 : ℚ) ^ ((n.log2 : Int) - d.log2 - 1) ≤ n / d ∧
      (n : ℚ) / d < 2 ^ ((n.log2 : Int) - d.log2 + 1) := by
  have hdpos : (0 : ℚ) < d := by exact_mod_cast hd
  have hnlow : (2 : ℚ) ^ (n.log2 : Int) ≤ n := by exact_mod_cast Nat.log2_self_le hn.ne'
  have hnhigh : (n : ℚ) < 2 ^ ((n.log2 : Int) + 1) := by exact_mod_cast Nat.lt_log2_self
  have hdlow : (2 : ℚ) ^ (d.log2 : Int) ≤ d := by exact_mod_cast Nat.log2_self_le hd.ne'
  have hdhigh : (d : ℚ) < 2 ^ ((d.log2 : Int) + 1) := by exact_mod_cast Nat.lt_log2_self
  constructor
  · calc (2 : ℚ) ^ ((n.log2 : Int) - d.log2 - 1) =
        2 ^ (n.log2 : Int) / 2 ^ ((d.log2 : Int) + 1) := by
          rw [← zpow_sub₀ (by norm_num)]
          congr 1
          ring
      _ ≤ n / d := div_le_div₀ (by positivity) hnlow hdpos hdhigh.le
  · calc (n : ℚ) / d < 2 ^ ((n.log2 : Int) + 1) / 2 ^ (d.log2 : Int) :=
          div_lt_div₀ hnhigh hdlow (by positivity) (by positivity)
      _ = 2 ^ ((n.log2 : Int) - d.log2 + 1) := by
          rw [← zpow_sub₀ (by norm_num)]
          congr 1
          ring

theorem lastPlace_eq (hn : 0 < n) (hd : 0 < d) :
    lastPlace n d = max (Int.log 2 ((n : ℚ) / d) - 52) leastExponent := by
  have hx : (0 : ℚ) < n / d := by positivity
  obtain ⟨hlow, hhigh⟩ := quotient_bounds hn hd
  -- of the two candidates, the test picks the one whose power the quotient reaches
  have htest : d * power 2 ((n.log2 : Int) - d.log2) ≤ n * power 2 (-((n.log2 : Int) - d.log2)) ↔
      (2 : ℚ) ^ ((n.log2 : Int) - d.log2) ≤ n / d := by
    have hpow : (0 : ℚ) < power 2 (-((n.log2 : Int) - d.log2)) := by
      exact_mod_cast power_pos (by decide) _
    rw [← power_two_div, div_le_div_iff₀ hpow (by exact_mod_cast hd), mul_comm d]
    exact_mod_cast Iff.rfl
  simp only [lastPlace]
  split_ifs with h
  · rw [log_eq hx (htest.mp h) hhigh]
  · rw [htest, not_le] at h
    rw [log_eq hx hlow (by simpa using h)]

/-- What `n / d` is rounded to, if no number is too large. -/
def near (n d : Nat) : ℚ := units n d (lastPlace n d) * 2 ^ lastPlace n d

theorem near_zero (d : Nat) : near 0 d = 0 := by
  simp [near, units, roundQuotient]

theorem near_nonneg (n d : Nat) : 0 ≤ near n d := by
  rw [near]
  positivity

theorem units_le_full (hn : 0 < n) (hd : 0 < d) : units n d (lastPlace n d) ≤ 2 ^ 53 := by
  have hplace : Int.log 2 ((n : ℚ) / d) + 1 ≤ 53 + lastPlace n d := by
    rw [lastPlace_eq hn hd]
    omega
  refine units_le hd ?_
  calc (n : ℚ) / d ≤ 2 ^ (Int.log 2 ((n : ℚ) / d) + 1) :=
        (by exact_mod_cast Int.lt_zpow_succ_log_self (b := 2) (by decide) ((n : ℚ) / d) :
          (n : ℚ) / d < 2 ^ (Int.log 2 ((n : ℚ) / d) + 1)).le
    _ ≤ 2 ^ (53 + lastPlace n d) := zpow_le_zpow_right₀ (by norm_num) hplace
    _ = ((2 ^ 53 : Nat) : ℚ) * 2 ^ lastPlace n d := by
        rw [zpow_add₀ (by norm_num)]
        norm_num

theorem half_le_units (hn : 0 < n) (hd : 0 < d) (hplace : leastExponent < lastPlace n d) :
    2 ^ 52 ≤ units n d (lastPlace n d) := by
  have hx : (0 : ℚ) < n / d := by positivity
  have hself := Int.zpow_log_le_self (b := 2) (by decide) hx
  have hlog : Int.log 2 ((n : ℚ) / d) = 52 + lastPlace n d := by
    rw [lastPlace_eq hn hd] at hplace ⊢
    omega
  refine le_units hd ?_
  calc ((2 ^ 52 : Nat) : ℚ) * 2 ^ lastPlace n d = 2 ^ (52 + lastPlace n d) := by
        rw [zpow_add₀ (by norm_num)]
        norm_num
    _ = 2 ^ Int.log 2 ((n : ℚ) / d) := by rw [hlog]
    _ ≤ n / d := by exact_mod_cast hself

theorem near_mono (hd : 0 < d) (hd' : 0 < d') (h : (n : ℚ) / d ≤ n' / d') :
    near n d ≤ near n' d' := by
  rcases n.eq_zero_or_pos with rfl | hn
  · rw [near_zero]
    exact near_nonneg n' d'
  have hx : (0 : ℚ) < n / d := by positivity
  have hn' : 0 < n' := by
    rcases n'.eq_zero_or_pos with rfl | hn'
    · simp at h
      linarith
    · exact hn'
  have hplaces : lastPlace n d ≤ lastPlace n' d' := by
    have hlog := Int.log_mono_right (b := 2) hx h
    rw [lastPlace_eq hn hd, lastPlace_eq hn' hd']
    omega
  rcases hplaces.lt_or_eq with hlt | heq
  · -- the next power of two is between them
    have hleast : leastExponent ≤ lastPlace n d := by
      rw [lastPlace_eq hn hd]
      omega
    have hlow : (units n d (lastPlace n d) : ℚ) ≤ 2 ^ 53 := by exact_mod_cast units_le_full hn hd
    have hhigh : (2 : ℚ) ^ 52 ≤ units n' d' (lastPlace n' d') := by
      exact_mod_cast half_le_units hn' hd' (by omega)
    calc near n d ≤ 2 ^ 53 * 2 ^ lastPlace n d := by
          rw [near]
          gcongr
      _ = 2 ^ 52 * 2 ^ (lastPlace n d + 1) := by
          rw [zpow_add₀ (by norm_num)]
          norm_num
          ring
      _ ≤ 2 ^ 52 * 2 ^ lastPlace n' d' := by
          gcongr
          · norm_num
          · omega
      _ ≤ near n' d' := by
          rw [near]
          gcongr
  · rw [near, near, heq]
    have hunits : (units n d (lastPlace n' d') : ℚ) ≤ units n' d' (lastPlace n' d') := by
      exact_mod_cast units_mono hd hd' h
    gcongr

def signed (negative : Bool) (x : ℚ) : ℚ := if negative then -x else x

theorem magnitude_eq (significand : Nat) (exponent : Int) :
    ((significand * power 2 exponent : Nat) : ℚ) / power 2 (-exponent) =
      significand * 2 ^ exponent := by
  exact_mod_cast scaled_power (by decide : 0 < 2) significand exponent

theorem toRat?_finite (negative : Bool) (significand : Nat) (exponent : Int) :
    toRat? (.finite negative significand exponent) =
      some (signed negative (significand * 2 ^ exponent)) := by
  simp only [toRat?, magnitude, signed, Option.some.injEq, Rat.mkRat_eq_div, ← magnitude_eq]
  cases negative
  · simp
  · simp [neg_div]

def bound : ℚ := 2 ^ (1024 : Int)

theorem bound_le {significand : Nat} (h : 2 ^ 52 ≤ significand)
    (hplace : greatestExponent < place) : bound ≤ significand * 2 ^ place := by
  have hsignificand : (2 : ℚ) ^ (52 : Int) ≤ significand := by exact_mod_cast h
  calc bound = 2 ^ (52 : Int) * 2 ^ (972 : Int) := by
        rw [bound, ← zpow_add₀ (by norm_num)]
        norm_num
    _ ≤ significand * 2 ^ place := by
        gcongr
        · norm_num
        · exact hplace

theorem lt_bound {significand : Nat} (h : significand < 2 ^ 53)
    (hplace : place ≤ greatestExponent) : (significand : ℚ) * 2 ^ place < bound := by
  have hsignificand : (significand : ℚ) < 2 ^ (53 : Int) := by exact_mod_cast h
  calc (significand : ℚ) * 2 ^ place ≤ significand * 2 ^ (971 : Int) := by
        gcongr
        · norm_num
        · exact hplace
    _ < 2 ^ (53 : Int) * 2 ^ (971 : Int) := by gcongr
    _ = bound := by
        rw [bound, ← zpow_add₀ (by norm_num)]
        norm_num

theorem ofQuotient_units (hn : 0 < n) (negative : Bool) : ofQuotient negative n d =
    let (significand, place) := if units n d (lastPlace n d) = power 2 53
      then (power 2 52, lastPlace n d + 1) else (units n d (lastPlace n d), lastPlace n d)
    if place > greatestExponent then .infinity negative
    else .finite negative significand place := by
  rw [ofQuotient, if_neg hn.ne']
  rfl

theorem ofQuotient_eq (hn : 0 < n) (hd : 0 < d) (negative : Bool) :
    (near n d < bound ∧ (ofQuotient negative n d).toRat? = some (signed negative (near n d))) ∨
      (bound ≤ near n d ∧ ofQuotient negative n d = .infinity negative) := by
  have hfull := units_le_full hn hd
  -- a significand that became too long is written one place higher
  obtain ⟨significand, place, hmade, hnear, hlong, hshort⟩ :
      ∃ significand place,
        ofQuotient negative n d = (if place > greatestExponent then .infinity negative
          else .finite negative significand place) ∧
        near n d = significand * 2 ^ place ∧ significand < 2 ^ 53 ∧
        (greatestExponent < place → 2 ^ 52 ≤ significand) := by
    by_cases hs : units n d (lastPlace n d) = power 2 53
    · refine ⟨power 2 52, lastPlace n d + 1, ?_, ?_, by decide, fun _ => le_rfl⟩
      · rw [ofQuotient_units hn, if_pos hs]
      · have htwice : (power 2 53 : ℚ) = power 2 52 * 2 := by
          exact_mod_cast (rfl : power 2 53 = power 2 52 * 2)
        rw [near, hs, htwice, zpow_add₀ (by norm_num)]
        ring
    · refine ⟨units n d (lastPlace n d), lastPlace n d, ?_, rfl, lt_of_le_of_ne hfull hs, ?_⟩
      · rw [ofQuotient_units hn, if_neg hs]
      · intro hplace
        exact half_le_units hn hd (lt_trans (by decide) hplace)
  rw [hmade, hnear]
  split_ifs with hplace
  · exact .inr ⟨bound_le (hshort hplace) hplace, rfl⟩
  · exact .inl ⟨lt_bound hlong (not_lt.mp hplace), toRat?_finite negative significand place⟩

/-- The place of a double among the exact numbers, infinity at the bound. -/
def position : Binary64 → ℚ
  | .nan => 0
  | .infinity negative => signed negative bound
  | x => x.toRat?.getD 0

/-- Whether the exact value of a double is within the bound. -/
def Bounded (x : Binary64) : Prop := ∀ q, x.toRat? = some q → |q| < bound

theorem toRat?_position {x : Binary64} {q : ℚ} (h : x.toRat? = some q) : x.position = q := by
  cases x with
  | nan => cases h
  | infinity negative => cases h
  | finite negative significand exponent => simp [position, h]

theorem bound_pos : 0 < bound := by
  rw [bound]
  positivity

theorem less_iff {x y : Binary64} {p q : ℚ} (hx : x.toRat? = some p) (hy : y.toRat? = some q) :
    less x y = true ↔ p < q := by
  cases x with
  | nan => cases hx
  | infinity negative => cases hx
  | finite a s e =>
    cases y with
    | nan => cases hy
    | infinity negative => cases hy
    | finite b t f =>
      simp only [less, compare?, hx, hy, beq_iff_eq, Option.some.injEq]
      split_ifs with hlt hgt <;> simp [hlt]

theorem position_lt {x y : Binary64} (hx : x.Bounded) (hy : y.Bounded) (h : less x y = true) :
    x.position < y.position := by
  have hpos := bound_pos
  -- infinities lie at the bound, which no finite double reaches
  cases x with
  | nan => cases y <;> cases h
  | infinity a =>
    cases y with
    | nan => cases a <;> cases h
    | infinity b =>
      revert h
      cases a <;> cases b <;> simp [less, compare?, position, signed, hpos]
    | finite b significand exponent =>
      have hy' := toRat?_finite b significand exponent
      have hwithin := abs_lt.mp (hy _ hy')
      cases a with
      | false => cases h
      | true =>
        rw [toRat?_position hy']
        exact hwithin.1
  | finite a significand exponent =>
    have hx' := toRat?_finite a significand exponent
    have hwithin := abs_lt.mp (hx _ hx')
    cases y with
    | nan => cases h
    | infinity b =>
      cases b with
      | false =>
        rw [toRat?_position hx']
        exact hwithin.2
      | true => cases h
    | finite b t f =>
      have hy' := toRat?_finite b t f
      rw [toRat?_position hx', toRat?_position hy']
      exact (less_iff hx' hy').mp h

theorem ofQuotient_place (hd : 0 < d) (negative : Bool) :
    (ofQuotient negative n d).Bounded ∧
      (ofQuotient negative n d).position = signed negative (min bound (near n d)) := by
  have hnear := near_nonneg n d
  rcases n.eq_zero_or_pos with rfl | hn
  · have hzero : (ofQuotient negative 0 d).toRat? = some 0 := by
      rw [ofQuotient, if_pos rfl, zero, toRat?_finite]
      cases negative <;> simp [signed]
    refine ⟨?_, ?_⟩
    · intro q hq
      obtain rfl : (0 : ℚ) = q := Option.some.inj (hzero.symm.trans hq)
      simpa using bound_pos
    · rw [toRat?_position hzero, near_zero, min_eq_right bound_pos.le]
      cases negative <;> simp [signed]
  · rcases ofQuotient_eq hn hd negative with ⟨hlt, hmade⟩ | ⟨hle, hmade⟩
    · refine ⟨?_, ?_⟩
      · intro q hq
        obtain rfl := Option.some.inj (hmade.symm.trans hq)
        cases negative <;> simpa [signed, abs_of_nonneg hnear] using hlt
      · rw [toRat?_position hmade, min_eq_right hlt.le]
    · rw [hmade, min_eq_left hle]
      exact ⟨fun q hq => (nomatch hq), rfl⟩

/-- What a number is rounded to, the bound if that is too large. -/
def rounded (q : ℚ) : ℚ := signed (decide (q < 0)) (min bound (near q.num.natAbs q.den))

theorem ofRat_place (negativeZero : Bool) (q : ℚ) :
    (ofRat negativeZero q).Bounded ∧ (ofRat negativeZero q).position = rounded q := by
  rw [ofRat]
  split_ifs with hq
  · obtain rfl := Rat.num_eq_zero.mp hq
    have hzero : zero negativeZero = ofQuotient negativeZero 0 1 := by rw [ofQuotient, if_pos rfl]
    obtain ⟨hbounded, hplace⟩ := ofQuotient_place (n := 0) Nat.one_pos negativeZero
    rw [hzero]
    refine ⟨hbounded, ?_⟩
    rw [hplace, rounded]
    cases negativeZero <;> simp [signed, near_zero, bound_pos.le]
  · have hneg : decide (q.num < 0) = decide (q < 0) := by simp
    rw [rounded, ← hneg]
    exact ofQuotient_place q.den_pos _

theorem rounded_mono {p q : ℚ} (h : p ≤ q) : rounded p ≤ rounded q := by
  have hsize : ∀ r : ℚ, (r.num.natAbs : ℚ) / r.den = |r| := by
    intro r
    rw [Nat.cast_natAbs, Int.cast_abs, ← Nat.abs_cast r.den, ← abs_div, Rat.num_div_den]
  have hnear : ∀ r s : ℚ, |r| ≤ |s| →
      min bound (near r.num.natAbs r.den) ≤ min bound (near s.num.natAbs s.den) := by
    intro r s hrs
    refine min_le_min le_rfl (near_mono r.den_pos s.den_pos ?_)
    rwa [hsize, hsize]
  have hnonneg : ∀ r : ℚ, 0 ≤ min bound (near r.num.natAbs r.den) :=
    fun r => le_min bound_pos.le (near_nonneg _ _)
  rcases lt_or_ge p 0 with hp | hp
  · rcases lt_or_ge q 0 with hq | hq
    · have habs : |q| ≤ |p| := by
        rw [abs_of_neg hp, abs_of_neg hq]
        exact neg_le_neg h
      simpa [rounded, signed, hp, hq] using hnear q p habs
    · have hlow := hnonneg p
      have hhigh := hnonneg q
      simp only [rounded, signed, hp, not_lt.mpr hq, decide_true, decide_false, if_true]
      exact le_trans (neg_nonpos.mpr hlow) hhigh
  · have hq := le_trans hp h
    have habs : |p| ≤ |q| := by rwa [abs_of_nonneg hp, abs_of_nonneg hq]
    simpa [rounded, signed, not_lt.mpr hp, not_lt.mpr hq] using hnear p q habs

theorem lt_of_less_ofRat {a b : Bool} {p q : ℚ} (h : less (ofRat a p) (ofRat b q) = true) :
    p < q := by
  obtain ⟨hp, hp'⟩ := ofRat_place a p
  obtain ⟨hq, hq'⟩ := ofRat_place b q
  have hlt := position_lt hp hq h
  rw [hp', hq'] at hlt
  by_contra hle
  exact absurd (rounded_mono (not_lt.mp hle)) (not_le.mpr hlt)

theorem add_eq {x y : Binary64} {p q : ℚ} (hx : x.toRat? = some p) (hy : y.toRat? = some q) :
    add x y = ofRat (x.isNegative && y.isNegative) (p + q) := by
  cases x with
  | nan => cases hx
  | infinity negative => cases hx
  | finite a s e =>
    cases y with
    | nan => cases hy
    | infinity negative => cases hy
    | finite b t f => simp only [add, hx, hy]

/-- A sum that is less than another as doubles is less in exact numbers. -/
theorem sum_lt_sum {x y z w : Binary64} {p q r s : ℚ} (hx : x.toRat? = some p)
    (hy : y.toRat? = some q) (hz : z.toRat? = some r) (hw : w.toRat? = some s)
    (h : less (add x y) (add z w) = true) : p + q < r + s := by
  rw [add_eq hx hy, add_eq hz hw] at h
  exact lt_of_less_ofRat h

theorem near_nat (h : n < 2 ^ 53) : near n 1 = n := by
  rcases n.eq_zero_or_pos with rfl | hn
  · exact_mod_cast near_zero 1
  have hplace : lastPlace n 1 ≤ 0 := by
    have hlt : (n : ℚ) < (2 : Nat) ^ (53 : Int) := by exact_mod_cast h
    have hlog := (Int.lt_zpow_iff_log_lt (by decide) (by exact_mod_cast hn)).mp hlt
    have hleast : leastExponent ≤ 0 := by decide
    rw [lastPlace_eq hn Nat.one_pos, Nat.cast_one, div_one]
    omega
  have hback : (power 2 (-lastPlace n 1) : ℚ) * 2 ^ lastPlace n 1 = 1 := by
    rw [← power_two_div, power_of_nonpos 2 hplace]
    have hpow : (power 2 (-lastPlace n 1) : ℚ) ≠ 0 := by
      exact_mod_cast (power_pos (by decide) _).ne'
    field_simp
    norm_num
  rw [near, units, power_of_nonpos 2 hplace, Nat.mul_one, roundQuotient_one]
  push_cast
  rw [mul_assoc, hback, mul_one]

theorem toRat?_ofInt {i : Int} (h : i.natAbs < 2 ^ 53) : (ofInt i).toRat? = some (i : ℚ) := by
  rcases eq_or_ne i 0 with rfl | hi
  · simp [ofInt, ofQuotient, zero, toRat?_finite, signed]
  have hn : 0 < i.natAbs := Int.natAbs_pos.mpr hi
  have hsigned : signed (decide (i < 0)) (i.natAbs : ℚ) = i := by
    rw [Nat.cast_natAbs, Int.cast_abs]
    rcases lt_or_ge i 0 with hneg | hnonneg
    · have hcast : (i : ℚ) < 0 := by exact_mod_cast hneg
      simp [signed, hneg, abs_of_neg hcast]
    · have hcast : (0 : ℚ) ≤ i := by exact_mod_cast hnonneg
      simp [signed, not_lt.mpr hnonneg, abs_of_nonneg hcast]
  rcases ofQuotient_eq hn Nat.one_pos (decide (i < 0)) with ⟨-, hmade⟩ | ⟨hle, -⟩
  · rw [ofInt, hmade, near_nat h, hsigned]
  · have hsmall : ((i.natAbs : ℚ)) * 2 ^ (0 : Int) < bound := lt_bound h (by decide)
    rw [near_nat h] at hle
    rw [zpow_zero, mul_one] at hsmall
    exact absurd hle (not_le.mpr hsmall)

/-- From this integer on, half a place below `2 ^ 1024`, the nearest double is infinite. -/
def tooLarge : Nat := 2 ^ 1024 - 2 ^ 970

theorem near_tooLarge : bound ≤ near tooLarge 1 := by
  have hmade : ofQuotient false tooLarge 1 = .infinity false := by decide +kernel
  rcases ofQuotient_eq (by decide +kernel : 0 < tooLarge) Nat.one_pos false with ⟨-, hsome⟩ | ⟨hle, -⟩
  · rw [hmade] at hsome
    cases hsome
  · exact hle

theorem near_below : near (tooLarge - 1) 1 < bound := by
  have hmade : (ofQuotient false (tooLarge - 1) 1).isFinite = true := by decide +kernel
  rcases ofQuotient_eq (by decide +kernel : 0 < tooLarge - 1) Nat.one_pos false with
    ⟨hlt, -⟩ | ⟨-, hinf⟩
  · exact hlt
  · rw [hinf] at hmade
    cases hmade

theorem ofInt_eq_infinity {n : Int} : (∃ negative, ofInt n = .infinity negative) ↔ tooLarge ≤ n.natAbs := by
  constructor
  · rintro ⟨negative, hmade⟩
    by_contra hlt
    have hle : ((n.natAbs : Nat) : ℚ) / (1 : Nat) ≤ ((tooLarge - 1 : Nat) : ℚ) / (1 : Nat) := by
      simp only [Nat.cast_one, div_one, Nat.cast_le]
      omega
    have hnear := (near_mono Nat.one_pos Nat.one_pos hle).trans_lt near_below
    rcases n.natAbs.eq_zero_or_pos with hzero | hpos
    · rw [ofInt, hzero, ofQuotient, if_pos rfl, zero] at hmade
      cases hmade
    · rcases ofQuotient_eq hpos Nat.one_pos (decide (n < 0)) with ⟨-, hsome⟩ | ⟨hle, -⟩
      · rw [← ofInt, hmade] at hsome
        cases hsome
      · exact absurd hle (not_le.mpr hnear)
  · intro hle
    have hpos : 0 < n.natAbs := lt_of_lt_of_le (by decide +kernel : 0 < tooLarge) hle
    have hquotient : ((tooLarge : Nat) : ℚ) / (1 : Nat) ≤ ((n.natAbs : Nat) : ℚ) / (1 : Nat) := by
      simp only [Nat.cast_one, div_one, Nat.cast_le]
      exact hle
    have hnear := near_tooLarge.trans (near_mono Nat.one_pos Nat.one_pos hquotient)
    rcases ofQuotient_eq hpos Nat.one_pos (decide (n < 0)) with ⟨hlt, -⟩ | ⟨-, hmade⟩
    · exact absurd hlt (not_lt.mpr hnear)
    · exact ⟨_, hmade⟩

end Binary64

end Rehearsal
