import Rehearsal.Proofs.Number.Decimal

/-! The shortest decimal of a double reads back as the double. Among its candidates are the two
neighbours with seventeen digits, of which the nearer is closer than any other double. A whole number
below `2 ^ 53` is written as itself. -/

namespace Rehearsal

theorem decimalOrder_bounds {n d : Nat} (hn : 0 < n) (hd : 0 < d) :
    (10 : ℚ) ^ decimalOrder n d ≤ n / d ∧ (n : ℚ) / d < 10 ^ (decimalOrder n d + 1) := by
  have hdpos : (0 : ℚ) < d := by exact_mod_cast hd
  rw [decimalOrder]
  split_ifs with hle
  · have hwhole : 0 < n / d := Nat.div_pos hle hd
    have hlow := Decimal.pow_digitCount_le hwhole
    have hhigh := Decimal.lt_pow_digitCount (n / d)
    have hcount := Decimal.digitCount_pos (n / d)
    rw [Decimal.digitCount] at hlow hhigh hcount
    generalize (Nat.toDigits 10 (n / d)).length = k at *
    rw [Nat.le_div_iff_mul_le hd] at hlow
    rw [Nat.div_lt_iff_lt_mul hd] at hhigh
    have hcast : ((k - 1 : Nat) : Int) = k - 1 := by omega
    rw [sub_add_cancel, ← hcast, zpow_natCast, zpow_natCast, le_div_iff₀ hdpos, div_lt_iff₀ hdpos]
    exact ⟨by exact_mod_cast hlow, by exact_mod_cast hhigh⟩
  · -- below one, the upper part fits into the lower one `(d - 1) / n` times
    have hwhole : 0 < (d - 1) / n := Nat.div_pos (by omega) hn
    have hlow := Decimal.pow_digitCount_le hwhole
    have hhigh := Decimal.lt_pow_digitCount ((d - 1) / n)
    have hcount := Decimal.digitCount_pos ((d - 1) / n)
    rw [Decimal.digitCount] at hlow hhigh hcount
    generalize (Nat.toDigits 10 ((d - 1) / n)).length = k at *
    rw [Nat.le_div_iff_mul_le hn] at hlow
    rw [Nat.div_lt_iff_lt_mul hn] at hhigh
    have hlow' : 10 ^ (k - 1) * n < d := by omega
    have hhigh' : d ≤ 10 ^ k * n := by omega
    have hcast : -(k : Int) + 1 = -((k - 1 : Nat) : Int) := by omega
    rw [hcast, zpow_neg, zpow_neg, zpow_natCast, zpow_natCast, le_div_iff₀ hdpos,
      inv_mul_le_iff₀ (by positivity), div_lt_iff₀ hdpos, lt_inv_mul_iff₀ (by positivity)]
    exact ⟨by exact_mod_cast hhigh', by exact_mod_cast hlow'⟩

theorem decimalOrder_whole {n d m : Nat} (hd : 0 < d) (hpos : 0 < m) (hm : m < 2 ^ 53)
    (hquotient : (n : ℚ) / d = m) : 0 ≤ decimalOrder n d ∧ decimalOrder n d < 16 := by
  have hone : (1 : ℚ) ≤ m := by exact_mod_cast hpos
  have hx : (0 : ℚ) < n / d := by linarith
  obtain ⟨hlow, hhigh⟩ := decimalOrder_bounds (upper_pos hx) hd
  rw [hquotient] at hlow hhigh
  have hless : (0 : Int) < decimalOrder n d + 1 := by
    refine (zpow_lt_zpow_iff_right₀ (by norm_num : (1 : ℚ) < 10)).mp ?_
    rw [zpow_zero]
    exact hone.trans_lt hhigh
  refine ⟨by omega, (zpow_lt_zpow_iff_right₀ (by norm_num : (1 : ℚ) < 10)).mp ?_⟩
  have hm' : (m : ℚ) < 2 ^ 53 := by exact_mod_cast hm
  calc (10 : ℚ) ^ decimalOrder n d ≤ m := hlow
    _ < 2 ^ 53 := hm'
    _ < 10 ^ (16 : Int) := by norm_num

theorem scaled_quotient (n d : Nat) (scale : Int) :
    ((n * power 10 (-scale) : Nat) : ℚ) / (d * power 10 scale : Nat) = n / d / 10 ^ scale := by
  have hten := power_div (by decide : 0 < 10) scale
  rw [Nat.cast_ofNat] at hten
  rw [← hten]
  push_cast
  field_simp

theorem roundQuotient_place {n d : Nat} (hd : 0 < d) (scale : Int) :
    |(roundQuotient (n * power 10 (-scale)) (d * power 10 scale) : ℚ) * 10 ^ scale - n / d| ≤
      10 ^ scale / 2 := by
  refine scaled_close (by positivity) ?_
  rw [← scaled_quotient]
  exact roundQuotient_close (Nat.mul_pos hd (power_pos (by decide) scale))

theorem roundQuotient_neighbour (n d : Nat) :
    roundQuotient n d = n / d ∨ roundQuotient n d = n / d + 1 := by
  simp only [roundQuotient]
  split_ifs <;> omega

namespace Binary64

variable {x : Binary64} {n d c m significand : Nat} {scale exponent : Int} {negative : Bool}

theorem neighbour?_some (h : neighbour? x n d scale = some c) :
    (c = n * power 10 (-scale) / (d * power 10 scale) ∨
      c = n * power 10 (-scale) / (d * power 10 scale) + 1) ∧ ofScaled false c scale = x := by
  simp only [neighbour?] at h
  generalize n * power 10 (-scale) / (d * power 10 scale) = low at h ⊢
  split at h
  case h_1 hlow hhigh =>
    rw [beq_iff_eq] at hlow hhigh
    have hc : c = low ∨ c = low + 1 := by
      cases h
      split_ifs <;> omega
    refine ⟨hc, ?_⟩
    rcases hc with rfl | rfl
    · exact hlow
    · exact hhigh
  case h_2 hlow _ =>
    cases h
    exact ⟨.inl rfl, beq_iff_eq.mp hlow⟩
  case h_3 _ hhigh =>
    cases h
    exact ⟨.inr rfl, beq_iff_eq.mp hhigh⟩
  case h_4 => cases h

theorem neighbour?_reads (h : neighbour? x n d scale = some c) : ofScaled false c scale = x :=
  (neighbour?_some h).2

theorem neighbour?_isSome
    (hc : c = n * power 10 (-scale) / (d * power 10 scale) ∨
      c = n * power 10 (-scale) / (d * power 10 scale) + 1)
    (h : ofScaled false c scale = x) : (neighbour? x n d scale).isSome := by
  simp only [neighbour?]
  generalize n * power 10 (-scale) / (d * power 10 scale) = low at hc ⊢
  rcases hc with rfl | rfl
  · cases ofScaled false (c + 1) scale == x <;> simp [h]
  · cases ofScaled false low scale == x <;> simp [h]

/-- What is written has no more digits than any length at which a neighbour reads back. -/
theorem shortest_hit {k : Nat} (hk : k < 17)
    (h : (neighbour? (ofQuotient false n d) n d (decimalOrder n d - k)).isSome) :
    ∃ extra ≤ k, (shortest n d).2 = decimalOrder n d - (extra : Int) ∧
      neighbour? (ofQuotient false n d) n d (shortest n d).2 = some (shortest n d).1 := by
  rw [shortest]
  generalize hhit : (List.range 17).findSome? _ = hit
  cases hit with
  | none =>
    rw [List.findSome?_eq_none_iff] at hhit
    have hnone := hhit k (List.mem_range.mpr hk)
    rw [Option.map_eq_none_iff] at hnone
    rw [hnone] at h
    cases h
  | some hit =>
    obtain ⟨before, extra, after, hsplit, hfound, hbefore⟩ := List.findSome?_eq_some_iff.mp hhit
    obtain ⟨c, hc, rfl⟩ := Option.map_eq_some_iff.mp hfound
    refine ⟨extra, ?_, rfl, hc⟩
    -- lengths are tried in order, so one that has a hit is not passed over
    have hmem : k ∈ before ++ extra :: after := hsplit ▸ List.mem_range.mpr hk
    have horder := hsplit ▸ (List.pairwise_lt_range (n := 17))
    rcases List.mem_append.mp hmem with hpassed | hrest
    · have hnone := hbefore k hpassed
      rw [Option.map_eq_none_iff] at hnone
      rw [hnone] at h
      cases h
    · rcases List.mem_cons.mp hrest with rfl | hlater
      · exact le_rfl
      · have htail := (List.pairwise_append.mp horder).2.1
        exact ((List.pairwise_cons.mp htail).1 k hlater).le

theorem neighbour?_seventeen (h : Proper significand exponent) (hs : 0 < significand) (hd : 0 < d)
    (hvalue : (n : ℚ) / d = significand * 2 ^ exponent) :
    (neighbour? (.finite false significand exponent) n d (decimalOrder n d - 16)).isSome := by
  have hx : (0 : ℚ) < n / d := by
    rw [hvalue]
    positivity
  have hshort : (significand : ℚ) < 2 ^ 53 := by exact_mod_cast h.short
  have hpow : (0 : ℚ) < 2 ^ exponent := by positivity
  obtain ⟨hlow, -⟩ := decimalOrder_bounds (upper_pos hx) hd
  generalize hscale : decimalOrder n d - 16 = scale
  have hunit : (0 : ℚ) < 10 ^ scale := by positivity
  have hsmall : (10 : ℚ) ^ scale * 10 ^ 16 ≤ n / d := by
    have hadd : (10 : ℚ) ^ scale * 10 ^ (16 : Int) = 10 ^ decimalOrder n d := by
      rw [← zpow_add₀ (by norm_num), ← hscale, sub_add_cancel]
    calc (10 : ℚ) ^ scale * 10 ^ 16 = 10 ^ scale * 10 ^ (16 : Int) := by norm_num
      _ ≤ n / d := by rwa [hadd]
  refine neighbour?_isSome (roundQuotient_neighbour _ _) ?_
  have hclose := roundQuotient_place (n := n) hd scale
  generalize roundQuotient (n * power 10 (-scale)) (d * power 10 scale) = c at hclose ⊢
  -- half a unit of the seventeenth digit is less than what a double tells apart
  have hpart : |(c : ℚ) * 10 ^ scale - n / d| < n / d / 2 ^ 54 := by
    refine hclose.trans_lt ?_
    linarith
  rw [Decimal.ofScaled_eq]
  refine ofQuotient_of_close h hs (power_pos (by decide) _) ?_ ?_
  · rw [Decimal.quotient_eq, ← hvalue]
    refine hpart.trans_le ?_
    rw [hvalue]
    nlinarith
  · rw [Decimal.quotient_eq, ← hvalue]
    exact hpart

theorem shortest_found (h : Proper significand exponent) (hs : 0 < significand) (hd : 0 < d)
    (hvalue : (n : ℚ) / d = significand * 2 ^ exponent) :
    ∃ extra : Nat, extra ≤ 16 ∧ (shortest n d).2 = decimalOrder n d - (extra : Int) ∧
      neighbour? (.finite false significand exponent) n d (shortest n d).2 =
        some (shortest n d).1 := by
  have hsome := neighbour?_seventeen h hs hd hvalue
  rw [← ofQuotient_self h hd hvalue] at hsome ⊢
  exact shortest_hit (by decide) hsome

theorem shortest_reads (h : Proper significand exponent) (hs : 0 < significand) (hd : 0 < d)
    (hvalue : (n : ℚ) / d = significand * 2 ^ exponent) :
    ofScaled false (shortest n d).1 (shortest n d).2 = .finite false significand exponent := by
  obtain ⟨-, -, -, hfound⟩ := shortest_found h hs hd hvalue
  exact neighbour?_reads hfound

theorem ten_zpow_le_two {k : Int} (hk : k ≤ 0) : (10 : ℚ) ^ k ≤ 2 ^ k := by
  obtain ⟨j, rfl⟩ : ∃ j, k = -j := ⟨-k, by omega⟩
  rw [zpow_neg, zpow_neg]
  exact inv_anti₀ (by positivity) (zpow_le_zpow_left₀ (by omega) (by norm_num) (by norm_num))

theorem shortest_scale (h : Proper significand exponent) (hs : 0 < significand) (hd : 0 < d)
    (hvalue : (n : ℚ) / d = significand * 2 ^ exponent) : -1100 ≤ (shortest n d).2 := by
  obtain ⟨extra, hextra, hscale, -⟩ := shortest_found h hs hd hvalue
  have hone : (1 : ℚ) ≤ significand := by exact_mod_cast hs
  have hx : (0 : ℚ) < n / d := by
    rw [hvalue]
    positivity
  obtain ⟨-, hhigh⟩ := decimalOrder_bounds (upper_pos hx) hd
  have hless : (10 : ℚ) ^ leastExponent < 10 ^ (decimalOrder n d + 1) := by
    refine lt_of_le_of_lt ?_ hhigh
    calc (10 : ℚ) ^ leastExponent ≤ 2 ^ leastExponent := ten_zpow_le_two (by decide)
      _ ≤ 2 ^ exponent := zpow_le_zpow_right₀ (by norm_num) h.least
      _ ≤ significand * 2 ^ exponent := le_mul_of_one_le_left (by positivity) hone
      _ = n / d := hvalue.symm
  have horder := (zpow_lt_zpow_iff_right₀ (by norm_num : (1 : ℚ) < 10)).mp hless
  have hleast : leastExponent = -1074 := rfl
  omega

/-- A decimal without fraction is the only one that reads back as a whole number below `2 ^ 53`. -/
theorem whole_of_reads (hm : m < 2 ^ 53)
    (hvalue : (significand : ℚ) * 2 ^ exponent = m) {k : Nat}
    (hreads : ofQuotient false k 1 = .finite false significand exponent) : k = m := by
  have hmade : (ofQuotient false k 1).toRat? = some (m : ℚ) := by
    rw [hreads, toRat?_finite, hvalue]
    rfl
  rcases k.eq_zero_or_pos with rfl | hk
  · rw [ofQuotient, if_pos rfl, zero, toRat?_finite] at hmade
    simpa [signed, eq_comm] using hmade
  · have hnear : near k 1 = m := by
      rcases ofQuotient_eq hk Nat.one_pos false with ⟨-, hrat⟩ | ⟨-, hinfinite⟩
      · rw [hrat] at hmade
        exact Option.some.inj hmade
      · rw [hinfinite] at hreads
        cases hreads
    by_cases hsmall : k < 2 ^ 53
    · rw [near_nat hsmall] at hnear
      exact_mod_cast hnear
    · -- from `2 ^ 53` on nothing is rounded to a number below it
      have hx : (0 : ℚ) < k := by exact_mod_cast hk
      have hlog : 53 ≤ Int.log 2 ((k : ℚ) / (1 : Nat)) := by
        rw [Nat.cast_one, div_one]
        refine (Int.zpow_le_iff_le_log (b := 2) (by decide) hx).mp ?_
        exact_mod_cast not_lt.mp hsmall
      have hplace : 1 ≤ lastPlace k 1 := by
        rw [lastPlace_eq hk Nat.one_pos]
        omega
      have hfull : (2 : ℚ) ^ 52 ≤ units k 1 (lastPlace k 1) := by
        exact_mod_cast half_le_units hk Nat.one_pos (lt_of_lt_of_le (by decide) hplace)
      have hlarge : (2 : ℚ) ^ 53 ≤ near k 1 := by
        calc (2 : ℚ) ^ 53 = 2 ^ 52 * 2 ^ (1 : Int) := by norm_num
          _ ≤ (units k 1 (lastPlace k 1) : ℚ) * 2 ^ lastPlace k 1 := by
            gcongr
            norm_num
      have hlt : (m : ℚ) < 2 ^ 53 := by exact_mod_cast hm
      linarith

theorem shortest_whole (h : Proper significand exponent) (hs : 0 < significand) (hd : 0 < d)
    (hm : m < 2 ^ 53) (hquotient : (n : ℚ) / d = m)
    (hvalue : (significand : ℚ) * 2 ^ exponent = m) :
    ((shortest n d).1 : ℚ) * 10 ^ (shortest n d).2 = m := by
  have hself : ofQuotient false n d = .finite false significand exponent :=
    ofQuotient_self h hd (hquotient.trans hvalue.symm)
  have hpos : 0 < m := by
    have hcast : (0 : ℚ) < m := by
      rw [← hvalue]
      positivity
    exact_mod_cast hcast
  obtain ⟨hnonneg, hbelow⟩ := decimalOrder_whole hd hpos hm hquotient
  -- without a fraction the number is its own neighbour
  have hunits : (neighbour? (ofQuotient false n d) n d
      (decimalOrder n d - (decimalOrder n d).toNat)).isSome := by
    have hzero : decimalOrder n d - (decimalOrder n d).toNat = 0 := by omega
    rw [hzero]
    refine neighbour?_isSome (c := m) (.inl ?_) ?_
    · have hdpos : (d : ℚ) ≠ 0 := by exact_mod_cast hd.ne'
      have hmul : n = m * d := by
        rw [div_eq_iff hdpos] at hquotient
        exact_mod_cast hquotient
      rw [neg_zero, power_zero, Nat.mul_one, Nat.mul_one, hmul, Nat.mul_div_cancel _ hd]
    · rw [Decimal.ofScaled_eq, hself]
      refine ofQuotient_self h (power_pos (by decide) _) ?_
      rw [Decimal.quotient_eq, zpow_zero, mul_one, hvalue]
  obtain ⟨extra, hextra, hscale, hfound⟩ := shortest_hit (by omega) hunits
  have hreads := neighbour?_reads hfound
  obtain ⟨j, hj⟩ := Int.eq_ofNat_of_zero_le (by omega : 0 ≤ (shortest n d).2)
  have hwhole : ((shortest n d).1 : ℚ) * 10 ^ (shortest n d).2 =
      ((shortest n d).1 * 10 ^ j : Nat) := by
    rw [hj, zpow_natCast]
    push_cast
    rfl
  rw [hwhole, Nat.cast_inj]
  refine whole_of_reads hm hvalue ?_
  rw [← hself, ← hreads, Decimal.ofScaled_eq]
  refine ofQuotient_congr Nat.one_pos (power_pos (by decide) _) ?_ false
  rw [Decimal.quotient_eq, hwhole, Nat.cast_one, div_one]

theorem significantDigits_append (c : Nat) :
    ∃ zeros, Nat.toDigits 10 c = significantDigits c ++ List.replicate zeros '0' := by
  refine ⟨((Nat.toDigits 10 c).reverse.takeWhile (· == '0')).length, ?_⟩
  have hzeros : (Nat.toDigits 10 c).reverse.takeWhile (· == '0') =
      List.replicate ((Nat.toDigits 10 c).reverse.takeWhile (· == '0')).length '0' := by
    refine List.eq_replicate_of_mem ?_
    intro digit hdigit
    exact beq_iff_eq.mp (List.all_eq_true.mp List.all_takeWhile digit hdigit)
  rw [significantDigits, ← List.reverse_replicate, ← hzeros, ← List.reverse_append,
    List.takeWhile_append_dropWhile, List.reverse_reverse]

theorem significantDigits_value (c : Nat) :
    ∃ zeros, Decimal.digitCount c = (significantDigits c).length + zeros ∧
      c = Nat.ofDigitChars 10 (significantDigits c) 0 * 10 ^ zeros := by
  obtain ⟨zeros, hdigits⟩ := significantDigits_append c
  refine ⟨zeros, ?_, ?_⟩
  · have hlength := congrArg List.length hdigits
    rwa [List.length_append, List.length_replicate] at hlength
  · calc c = Nat.ofDigitChars 10 (Nat.toDigits 10 c) 0 := Nat.ofDigitChars_ten_toDigits.symm
      _ = 10 ^ zeros * Nat.ofDigitChars 10 (significantDigits c) 0 := by
        rw [hdigits, Nat.ofDigitChars_append, Nat.ofDigitChars_replicate_zero]
      _ = _ := Nat.mul_comm _ _

end Binary64

namespace Decimal

open Binary64 (Proper signed shortest)

variable {negative : Bool} {significand : Nat} {exponent : Int}

/-- The decimal that significant digits with the point at a place are written as. -/
def ofDigits (negative : Bool) (digits : List Char) (point : Int) : Decimal :=
  if point ≤ 16 ∧ 0 ≤ point - digits.length then
    .finite negative (Nat.ofDigitChars 10 digits 0 * power 10 (point - digits.length + 1)) (-1)
  else .finite negative (Nat.ofDigitChars 10 digits 0) (point - digits.length)

theorem ofDigits_finite (negative : Bool) (digits : List Char) (point : Int) : ∃ c e,
    ofDigits negative digits point = .finite negative c e ∧
      (c : ℚ) * 10 ^ e = Nat.ofDigitChars 10 digits 0 * 10 ^ (point - digits.length) := by
  rw [ofDigits]
  split_ifs with hpositional
  · refine ⟨_, _, rfl, ?_⟩
    have hten := power_div (by decide : 0 < 10) (point - digits.length + 1)
    rw [power_of_nonpos 10 (by omega : -(point - digits.length + 1) ≤ 0)] at hten
    push_cast at hten ⊢
    rw [div_one] at hten
    rw [hten, mul_assoc, ← zpow_add₀ (by norm_num)]
    norm_num
  · exact ⟨_, _, rfl, rfl⟩

theorem ofShortest_digits (negative : Bool) (exponent : Int) (hs : 0 < significand) :
    ofShortest (.finite negative significand exponent) =
      let (c, scale) := shortest (significand * power 2 exponent) (power 2 (-exponent))
      ofDigits negative (Binary64.significantDigits c) (digitCount c + scale) := by
  obtain ⟨s, rfl⟩ : ∃ s, significand = s + 1 := ⟨significand - 1, by omega⟩
  rcases hfound : shortest ((s + 1) * power 2 exponent) (power 2 (-exponent)) with ⟨c, scale⟩
  obtain ⟨zeros, hcount, hc⟩ := Binary64.significantDigits_value c
  have hwhole : c / power 10 (digitCount c + scale - (Binary64.significantDigits c).length - scale) =
      Nat.ofDigitChars 10 (Binary64.significantDigits c) 0 := by
    have hpower : power 10 (digitCount c + scale - (Binary64.significantDigits c).length - scale) =
        10 ^ zeros := by
      rw [power]
      congr 1
      omega
    rw [hpower]
    exact Nat.div_eq_of_eq_mul_left (by positivity) hc
  simp only [ofShortest, Binary64.magnitude, hfound, hwhole, ofDigits]

theorem ofShortest_finite (negative : Bool) (exponent : Int) (hs : 0 < significand) : ∃ c e,
    ofShortest (.finite negative significand exponent) = .finite negative c e ∧
      (c : ℚ) * 10 ^ e =
        (shortest (significand * power 2 exponent) (power 2 (-exponent))).1 *
          10 ^ (shortest (significand * power 2 exponent) (power 2 (-exponent))).2 := by
  rw [ofShortest_digits negative exponent hs]
  rcases shortest (significand * power 2 exponent) (power 2 (-exponent)) with ⟨k, scale⟩
  obtain ⟨zeros, hcount, hk⟩ := Binary64.significantDigits_value k
  obtain ⟨c, e, hmade, hvalue⟩ :=
    ofDigits_finite negative (Binary64.significantDigits k) (digitCount k + scale)
  refine ⟨c, e, hmade, hvalue.trans ?_⟩
  have hplace : (digitCount k : Int) + scale - (Binary64.significantDigits k).length =
      zeros + scale := by
    omega
  rw [hplace, zpow_add₀ (by norm_num), zpow_natCast, ← mul_assoc]
  congr 1
  exact_mod_cast hk.symm

theorem exists_toRat?_ofShortest (negative : Bool) (significand : Nat) (exponent : Int) :
    ∃ q, (ofShortest (.finite negative significand exponent)).toRat? = some q := by
  rcases significand.eq_zero_or_pos with rfl | hs
  · exact ⟨_, toRat?_finite negative 0 (-1)⟩
  · obtain ⟨c, e, hmade, -⟩ := ofShortest_finite negative exponent hs
    exact ⟨_, hmade ▸ toRat?_finite negative c e⟩

theorem toRat?_ofShortest_whole (h : Proper significand exponent) {m : Nat} (hm : m < 2 ^ 53)
    (hvalue : (significand : ℚ) * 2 ^ exponent = m) :
    (ofShortest (.finite negative significand exponent)).toRat? = some (signed negative m) := by
  rcases significand.eq_zero_or_pos with rfl | hs
  · have hzero : (m : ℚ) = 0 := by
      rw [← hvalue]
      simp
    rw [ofShortest, toRat?_finite, hzero]
    simp
  · obtain ⟨c, e, hmade, hshortest⟩ := ofShortest_finite negative exponent hs
    have hquotient : ((significand * power 2 exponent : Nat) : ℚ) / power 2 (-exponent) = m := by
      rw [Binary64.magnitude_eq, hvalue]
    rw [hmade, toRat?_finite, hshortest,
      Binary64.shortest_whole h hs (power_pos (by decide) _) hm hquotient hvalue]

theorem toBinary64_ofShortest (negative : Bool) (h : Proper significand exponent) :
    (ofShortest (.finite negative significand exponent)).toBinary64 =
      .finite negative significand exponent := by
  rcases significand.eq_zero_or_pos with rfl | hs
  · have hleast := h.zero_exponent
    subst hleast
    rfl
  · obtain ⟨c, e, hmade, hvalue⟩ := ofShortest_finite negative exponent hs
    have hpos : 0 < power 2 (-exponent) := power_pos (by decide) _
    have hreads := Binary64.shortest_reads h hs hpos (Binary64.magnitude_eq significand exponent)
    rw [hmade, toBinary64, ofScaled_eq]
    refine Binary64.ofQuotient_sign ?_
    rw [← ofScaled_eq, ← hreads]
    exact ofScaled_congr hvalue false

/-- What a double is written as is within the limits of decimals. -/
theorem make?_ofShortest (h : Proper significand exponent) {c : Nat} {e : Int}
    (hmade : ofShortest (.finite negative significand exponent) = .finite negative c e) :
    make? negative c e = some (.finite negative c e) := by
  rcases significand.eq_zero_or_pos with rfl | hs
  · cases hmade
    rfl
  · have hback := toBinary64_ofShortest negative h
    have hscale := Binary64.shortest_scale h hs (power_pos (by decide) (-exponent))
      (Binary64.magnitude_eq significand exponent)
    -- the scale is bounded below by the last digit that is written, and above as it reads back
    have hlow : -1100 ≤ e := by
      rw [ofShortest_digits negative exponent hs] at hmade
      generalize shortest (significand * power 2 exponent) (power 2 (-exponent)) = found
        at hmade hscale
      obtain ⟨zeros, hcount, -⟩ := Binary64.significantDigits_value found.1
      simp only [ofDigits] at hmade
      split_ifs at hmade
      · cases hmade
        decide
      · cases hmade
        omega
    have hhigh : adjusted c e ≤ 400 := by
      have hcount : (Nat.toDigits 10 c).length = digitCount c := rfl
      rw [hmade, toBinary64, Binary64.ofScaled, hcount] at hback
      split_ifs at hback with hzero hlarge
      · cases hback
        exact absurd hs (lt_irrefl 0)
      all_goals
        rw [adjusted]
        omega
    have hgreatest : greatestAdjusted = 999999999999999999 := rfl
    have hleast : leastExponent = -1999999999999999997 := rfl
    rw [make?, if_neg (by omega)]

theorem toRat?_ofShortest_congr {a b : Bool} {s t : Nat} {e f : Int} (h : Proper s e)
    (h' : Proper t f) (hvalue : (Binary64.finite a s e).toRat? = (Binary64.finite b t f).toRat?) :
    (ofShortest (.finite a s e)).toRat? = (ofShortest (.finite b t f)).toRat? := by
  rw [Binary64.toRat?_finite, Binary64.toRat?_finite, Option.some.injEq] at hvalue
  obtain ⟨hsign, rfl, rfl⟩ := h.unique h' hvalue
  rcases hsign with rfl | rfl
  · rfl
  · rw [ofShortest, ofShortest, toRat?_finite, toRat?_finite]
    simp [Binary64.signed_zero]

theorem toBinary64_cases (negative : Bool) (c : Nat) (e : Int) :
    (finite negative c e).toBinary64 = .infinity negative ∨
      ∃ s f, Proper s f ∧ (finite negative c e).toBinary64 = .finite negative s f := by
  rw [toBinary64, ofScaled_eq]
  rcases (c * power 10 e).eq_zero_or_pos with hzero | hpos
  · refine .inr ⟨_, _, Binary64.proper_zero, ?_⟩
    rw [hzero, Binary64.ofQuotient, if_pos rfl, Binary64.zero]
  · exact Binary64.ofQuotient_proper hpos (power_pos (by decide) _)

/-- Decimals of one value have one nearest double, but for the sign of zero. -/
theorem toBinary64_congr {a b : Decimal} {q : ℚ} (ha : a.toRat? = some q) (hb : b.toRat? = some q) :
    a.toBinary64 = b.toBinary64 ∨ a.toBinary64.toRat? = b.toBinary64.toRat? := by
  cases a with
  | nan => cases ha
  | infinity negative => cases ha
  | finite m c e =>
    cases b with
    | nan => cases hb
    | infinity negative => cases hb
    | finite n c' e' =>
      have hvalue := ha.trans hb.symm
      rw [toRat?_finite, toRat?_finite, Option.some.injEq] at hvalue
      rcases c.eq_zero_or_pos with rfl | hc
      · rw [Nat.cast_zero, zero_mul, Binary64.signed_zero, eq_comm, Binary64.signed_eq_zero,
          mul_eq_zero_iff_right (by positivity), Nat.cast_eq_zero] at hvalue
        subst hvalue
        right
        rw [toBinary64, toBinary64, ofScaled_eq, ofScaled_eq, Nat.zero_mul, Nat.zero_mul,
          Binary64.ofQuotient, Binary64.ofQuotient, if_pos rfl, if_pos rfl, Binary64.zero,
          Binary64.zero, Binary64.toRat?_finite, Binary64.toRat?_finite]
        simp [Binary64.signed_zero]
      · rcases c'.eq_zero_or_pos with rfl | hc'
        · have hpos : (0 : ℚ) < c * 10 ^ e := by positivity
          rw [Nat.cast_zero, zero_mul, Binary64.signed_zero, Binary64.signed_eq_zero] at hvalue
          exact absurd hvalue hpos.ne'
        · obtain ⟨rfl, hmagnitude⟩ :=
            (Binary64.signed_inj (by positivity) (by positivity)).mp hvalue
          exact .inl (ofScaled_congr hmagnitude m)

theorem toRat?_ofShortest_inj {a b : Bool} {s t : Nat} {e f : Int} (h : Proper s e)
    (h' : Proper t f) : (Binary64.finite a s e).toRat? = (Binary64.finite b t f).toRat? ↔
      (ofShortest (.finite a s e)).toRat? = (ofShortest (.finite b t f)).toRat? := by
  constructor
  · exact toRat?_ofShortest_congr h h'
  · intro hwritten
    obtain ⟨q, hq⟩ := exists_toRat?_ofShortest b t f
    have hback := toBinary64_congr (hwritten.trans hq) hq
    rw [toBinary64_ofShortest _ h, toBinary64_ofShortest _ h'] at hback
    rcases hback with hsame | hsame
    · rw [hsame]
    · exact hsame

theorem toRat?_iff_written {n : Int} (hn : n.natAbs < 2 ^ 53) (h : Proper significand exponent) :
    (Binary64.finite negative significand exponent).toRat? = some (n : ℚ) ↔
      (ofShortest (.finite negative significand exponent)).toRat? = some (n : ℚ) := by
  constructor
  · intro hexact
    rw [Binary64.toRat?_finite, Option.some.injEq] at hexact
    have hsize : (significand : ℚ) * 2 ^ exponent = n.natAbs := by
      have habs := congrArg abs hexact
      have hnonneg : (0 : ℚ) ≤ significand * 2 ^ exponent := by positivity
      rw [Nat.cast_natAbs, Int.cast_abs, ← habs]
      cases negative <;> simp [signed, abs_of_nonneg hnonneg]
    rw [toRat?_ofShortest_whole h hn hsize, ← hexact, hsize]
  · intro hwritten
    have hint : (ofInt n).toBinary64.toRat? = some (n : ℚ) := by
      have hsame : (ofInt n).toBinary64 = Binary64.ofInt n := by
        rw [ofInt, toBinary64, ofScaled_eq, Binary64.ofInt, neg_zero, power_zero, Nat.mul_one]
      rw [hsame, Binary64.toRat?_ofInt hn]
    have hback := toBinary64_congr hwritten (toRat?_ofInt n)
    rw [toBinary64_ofShortest _ h] at hback
    rcases hback with hsame | hsame
    · rw [hsame, hint]
    · rw [hsame, hint]

/-- Whether a decimal is what its nearest double is written as. -/
def Literal (d : Decimal) : Prop := (ofShortest d.toBinary64).equal d = true

/-- A decimal that is rounded to a double is a literal exactly if the double is written as it. -/
theorem literal_iff {d : Decimal} {q : ℚ} (hd : d.toRat? = some q)
    (h : Proper significand exponent)
    (hequal : d.toBinary64.equal (.finite negative significand exponent) = true) :
    d.Literal ↔ (ofShortest (.finite negative significand exponent)).toRat? = some q := by
  have hx := Binary64.toRat?_finite negative significand exponent
  cases d with
  | nan => cases hd
  | infinity negative => cases hd
  | finite m c e =>
    rcases toBinary64_cases m c e with hinf | ⟨s, f, hproper, hmade⟩
    · rw [hinf] at hequal
      cases m <;> cases hequal
    · rw [hmade, Binary64.equal_iff (Binary64.toRat?_finite m s f) hx] at hequal
      have hsame : (Binary64.finite m s f).toRat? =
          (Binary64.finite negative significand exponent).toRat? := by
        rw [hx, Binary64.toRat?_finite, hequal]
      obtain ⟨r, hr⟩ := exists_toRat?_ofShortest m s f
      rw [Literal, hmade, equal_iff hr hd, ← toRat?_ofShortest_congr hproper h hsame, hr,
        Option.some.injEq]

theorem equal_of_written {d : Decimal} {q : ℚ} (hd : d.toRat? = some q)
    (h : Proper significand exponent)
    (hwritten : (ofShortest (.finite negative significand exponent)).toRat? = some q) :
    d.toBinary64.equal (.finite negative significand exponent) = true := by
  have hx := Binary64.toRat?_finite negative significand exponent
  have hback := toBinary64_ofShortest negative h
  have hfinite : d.toBinary64.toRat? = (Binary64.finite negative significand exponent).toRat? := by
    rcases toBinary64_congr hd hwritten with hsame | hsame
    · rw [hsame, hback]
    · rw [hsame, hback]
  exact (Binary64.equal_iff (hfinite.trans hx) hx).mpr rfl

end Decimal

end Rehearsal
