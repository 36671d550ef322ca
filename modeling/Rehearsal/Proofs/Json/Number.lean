import Rehearsal.Json.Writer
import Rehearsal.Proofs.Text.Digits

/-! Integers written in JSON are read back, up to the longest ones that are written at all. -/

namespace Rehearsal.Json

/-- Whether the number before cannot go on with these characters. -/
def EndsNumber (rest : List Char) : Prop :=
  ∀ c ∈ rest.head?, c.isDigit = false ∧ c ≠ '.' ∧ c ≠ 'e' ∧ c ≠ 'E'

/-- Whether an integer is short enough to be written. -/
def WritableInt (n : Int) : Prop := (Nat.toDigits 10 n.natAbs).length ≤ integerDigitLimit

instance (n : Int) : Decidable (WritableInt n) :=
  inferInstanceAs (Decidable (_ ≤ _))

variable {rest : List Char}

/-- Whether characters are the digits of a whole number: with no zero in front of others. -/
def Whole (digits : List Char) : Prop :=
  ∃ c rest, digits = c :: rest ∧ (c = '0' → rest = []) ∧ ∀ d ∈ digits, d.isDigit

theorem takeWhole_run {whole : List Char} (hwhole : Whole whole)
    (h : ∀ c ∈ rest.head?, c.isDigit = false) : takeWhole (whole ++ rest) = some (whole, rest) := by
  obtain ⟨c, digits, rfl, hzero, hdigits⟩ := hwhole
  by_cases hc : c = '0'
  · rw [hzero hc, hc]
    rfl
  · obtain ⟨htake, hdrop⟩ := Text.take_run (p := Char.isDigit)
      (fun d hm => hdigits d (List.mem_cons_of_mem c hm)) h
    rw [List.cons_append, takeWhole]
    · rw [if_pos (hdigits c List.mem_cons_self), htake, hdrop]
    · exact hc

theorem whole_toDigits (n : Nat) : Whole (Nat.toDigits 10 n) := by
  rcases Nat.eq_zero_or_pos n with rfl | hn
  · exact ⟨'0', [], rfl, fun _ => rfl, by simp⟩
  · obtain ⟨c, digits, hd, hc⟩ := Text.toDigits_pos n hn
    exact ⟨c, digits, hd, fun h => absurd h hc, fun _ => Text.isDigit_of_mem_toDigits⟩

theorem takeWhole_toDigits (n : Nat) (h : EndsNumber rest) :
    takeWhole (Nat.toDigits 10 n ++ rest) = some (Nat.toDigits 10 n, rest) :=
  takeWhole_run (whole_toDigits n) fun c hc => (h c hc).1

theorem takeFraction_none (h : EndsNumber rest) : takeFraction rest = ([], rest) := by
  rw [takeFraction]
  rintro more rfl
  exact (h '.' rfl).2.1 rfl

theorem takeExponent_none (h : EndsNumber rest) : takeExponent rest = (none, rest) := by
  cases rest with
  | nil => rfl
  | cons c rest =>
    obtain ⟨-, -, he, hE⟩ := h c rfl
    simp only [takeExponent, he, hE, or_self, if_false]

theorem readNumber_toDigits (fractions : Fractions) (start : Nat) (negative : Bool) {n : Nat}
    (hlimit : (Nat.toDigits 10 n).length ≤ integerDigitLimit) {rest : List Char}
    (h : EndsNumber rest) :
    readNumber fractions start negative (Nat.toDigits 10 n ++ rest) =
      .ok (.int (if negative then -n else n), rest) := by
  simp only [readNumber, takeWhole_toDigits n h, takeFraction_none h, takeExponent_none h,
    numberValue, if_neg (Nat.not_lt.mpr hlimit), Text.digitsValue_toDigits]
  rfl

theorem isSpace_ends {c : Char} (h : isSpace c) :
    c.isDigit = false ∧ c ≠ '.' ∧ c ≠ 'e' ∧ c ≠ 'E' := by
  simp only [isSpace, Bool.or_eq_true, beq_iff_eq] at h
  rcases h with ((rfl | rfl) | rfl) | rfl <;> decide

/-- Whether a character can begin a value. -/
def StartsValue (c : Char) : Prop := isSpace c = false ∧ c ≠ ']' ∧ c ≠ Char.ofNat 0xFEFF

instance (c : Char) : Decidable (StartsValue c) :=
  inferInstanceAs (Decidable (_ ∧ _ ∧ _))

theorem digit_starts {c : Char} (hc : c.isDigit) : StartsValue c := by
  refine ⟨?_, ?_, ?_⟩
  · cases h : isSpace c with
    | false => rfl
    | true =>
      rw [(isSpace_ends h).1] at hc
      cases hc
  · rintro rfl
    cases hc
  · rintro rfl
    cases hc

theorem readValue_digit (fractions : Fractions) (fuel : Nat) {c : Char} (hc : c.isDigit)
    (rest : List Char) :
    readValue fractions (fuel + 1) (c :: rest) =
      readNumber fractions (c :: rest).length false (c :: rest) := by
  rw [readValue]
  all_goals
    intro _ heq
    cases heq
    cases hc

theorem readValue_minus (fractions : Fractions) (fuel : Nat) {c : Char} (hc : c.isDigit)
    (rest : List Char) :
    readValue fractions (fuel + 1) ('-' :: c :: rest) =
      readNumber fractions ('-' :: c :: rest).length true (c :: rest) := by
  rw [readValue]
  all_goals
    intro _ heq
    cases heq
    cases hc

end Rehearsal.Json
