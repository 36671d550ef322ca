import Rehearsal.Text.Basic

/-! Decimal numerals. The numeral of a natural number is a row of digits with no zero in front of
others, and reading it gives the number back. Conversely every such row of digits is the numeral of
its value. -/

namespace Rehearsal.Text

theorem take_run {α : Type} {p : α → Bool} {run rest : List α} (hrun : ∀ a ∈ run, p a)
    (hrest : ∀ a ∈ rest.head?, p a = false) :
    (run ++ rest).takeWhile p = run ∧ (run ++ rest).dropWhile p = rest := by
  rw [List.takeWhile_append_of_pos hrun, List.dropWhile_append_of_pos hrun]
  cases rest with
  | nil => simp
  | cons a rest =>
    have ha : p a = false := hrest a rfl
    simp [ha]

theorem digitValue?_of_isDigit {c : Char} (h : c.isDigit) :
    digitValue? c = some (c.toNat - 48) := by
  have hc : '0' ≤ c ∧ c ≤ '9' := by simpa [Char.isDigit, Char.le_def] using h
  have hn : c.toNat ≤ 57 := hc.2
  rw [digitValue?, if_pos (by omega), if_pos hc]

theorem foldl_digits (cs : List Char) (h : ∀ c ∈ cs, c.isDigit) (n : Nat) :
    cs.foldl (fun n c => 10 * n + (digitValue? c).getD 0) n = Nat.ofDigitChars 10 cs n := by
  induction cs generalizing n with
  | nil => rfl
  | cons c rest ih =>
    rw [List.foldl_cons, Nat.ofDigitChars_cons, digitValue?_of_isDigit (h c List.mem_cons_self),
      ih fun d hd => h d (List.mem_cons_of_mem _ hd)]
    rfl

theorem isDigit_of_mem_toDigits {n : Nat} {c : Char} (h : c ∈ Nat.toDigits 10 n) : c.isDigit :=
  Nat.isDigit_of_mem_toDigits (by decide) (by decide) h

theorem digitsValue_toDigits (n : Nat) : digitsValue (Nat.toDigits 10 n) = n :=
  (foldl_digits _ (fun _ => isDigit_of_mem_toDigits) 0).trans Nat.ofDigitChars_ten_toDigits

theorem digitChar_ne_zero : ∀ n < 10, 0 < n → n.digitChar ≠ '0' := by decide

theorem toDigits_pos (n : Nat) (hn : 0 < n) :
    ∃ c rest, Nat.toDigits 10 n = c :: rest ∧ c ≠ '0' := by
  induction n using Nat.strongRecOn with
  | ind n ih =>
    by_cases hs : n < 10
    · exact ⟨n.digitChar, [], Nat.toDigits_of_lt_base hs, digitChar_ne_zero n hs hn⟩
    · obtain ⟨c, rest, hd, hc⟩ := ih (n / 10) (by omega) (by omega)
      refine ⟨c, rest ++ [(n % 10).digitChar], ?_, hc⟩
      rw [Nat.toDigits_of_base_le (by decide) (by omega), hd, List.cons_append]

theorem toNat_of_isDigit {c : Char} (h : c.isDigit) : 48 ≤ c.toNat ∧ c.toNat ≤ 57 := by
  simpa [Char.isDigit, UInt32.le_iff_toNat_le] using h

theorem digitChar_of_isDigit {c : Char} (h : c.isDigit) : (c.toNat - 48).digitChar = c := by
  have hc := toNat_of_isDigit h
  have hall : ∀ k < 10, (k.digitChar).toNat = k + 48 := by decide
  apply Char.toNat_inj.mp
  rw [hall _ (by omega)]
  omega

theorem toDigits_ofDigitChars (cs : List Char) (h : ∀ c ∈ cs, c.isDigit) {n : Nat} (hn : 0 < n) :
    Nat.toDigits 10 (Nat.ofDigitChars 10 cs n) = Nat.toDigits 10 n ++ cs := by
  induction cs generalizing n with
  | nil => simp [Nat.ofDigitChars_eq_foldl]
  | cons c rest ih =>
    have hc := digitChar_of_isDigit (h c List.mem_cons_self)
    have hrange := toNat_of_isDigit (h c List.mem_cons_self)
    have hlt : c.toNat - 48 < 10 := by omega
    have hnext := Nat.toDigits_append_toDigits (b := 10) (n := n) (d := c.toNat - 48) (by decide)
      hn hlt
    rw [Nat.toDigits_of_lt_base hlt, hc] at hnext
    rw [Nat.ofDigitChars_cons, ih (fun d hd => h d (List.mem_cons_of_mem _ hd)) (by omega)]
    change Nat.toDigits 10 (10 * n + (c.toNat - 48)) ++ rest = _
    rw [← hnext, List.append_assoc, List.singleton_append]

theorem toDigits_digitsValue {c : Char} {cs : List Char} (hc : c.isDigit) (hzero : c ≠ '0')
    (h : ∀ d ∈ cs, d.isDigit) : Nat.toDigits 10 (digitsValue (c :: cs)) = c :: cs := by
  have hall : ∀ d ∈ c :: cs, d.isDigit := List.forall_mem_cons.mpr ⟨hc, h⟩
  have hchar := digitChar_of_isDigit hc
  have hpos : 0 < c.toNat - 48 := by
    rcases Nat.eq_zero_or_pos (c.toNat - 48) with hz | hp
    · rw [hz] at hchar
      exact absurd hchar.symm hzero
    · exact hp
  have hval : digitsValue (c :: cs) = Nat.ofDigitChars 10 cs (c.toNat - 48) := by
    rw [digitsValue, foldl_digits _ hall, Nat.ofDigitChars_cons, Nat.mul_zero, Nat.zero_add]
    rfl
  have hrange := toNat_of_isDigit hc
  rw [hval, toDigits_ofDigitChars cs h hpos, Nat.toDigits_of_lt_base (by omega), hchar,
    List.singleton_append]

end Rehearsal.Text
