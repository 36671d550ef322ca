import Rehearsal.Proofs.Json.Container
import Rehearsal.Proofs.Number.Shortest

/-! A double that is written in JSON is read exactly as the decimal that is written, digit by digit,
or as the double itself. Its text consists of whole digits, a fraction and an exponent, and the
layouts differ only in which of these there are. -/

namespace Rehearsal

namespace Text

theorem isDigit_zero : ∀ c ∈ ['0'], c.isDigit := by simp

theorem isDigit_zeros (k : Nat) : ∀ c ∈ List.replicate k '0', c.isDigit := by
  intro c hc
  rw [List.eq_of_mem_replicate hc]
  rfl

theorem isDigit_append {cs ds : List Char} (hcs : ∀ c ∈ cs, c.isDigit)
    (hds : ∀ d ∈ ds, d.isDigit) : ∀ c ∈ cs ++ ds, c.isDigit :=
  List.forall_mem_append.mpr ⟨hcs, hds⟩

theorem digitsValue_eq {cs : List Char} (h : ∀ c ∈ cs, c.isDigit) :
    digitsValue cs = Nat.ofDigitChars 10 cs 0 := foldl_digits cs h 0

end Text

namespace Json

open Text

variable {fractions : Fractions} {whole fraction digits rest : List Char} {exponent : Option Int}
  {point e : Int} {negative : Bool}

theorem exponentText_eq (e : Int) : ∃ run : List Char,
    (Binary64.exponentText e).toList = 'e' :: (if e < 0 then '-' else '+') :: run ∧ run ≠ [] ∧
      (∀ c ∈ run, c.isDigit) ∧ digitsValue run = e.natAbs := by
  refine ⟨(if (Nat.toDigits 10 e.natAbs).length < 2 then ['0'] else []) ++
    Nat.toDigits 10 e.natAbs, ?_, ?_, ?_, ?_⟩
  · rw [Binary64.exponentText]
    split_ifs <;> simp
  · exact List.append_ne_nil_of_right_ne_nil _ Nat.toDigits_ne_nil
  · refine isDigit_append ?_ fun _ => isDigit_of_mem_toDigits
    split_ifs
    · exact isDigit_zero
    · exact List.forall_mem_nil _
  · split_ifs
    · rw [List.singleton_append, digitsValue, List.foldl_cons]
      exact digitsValue_toDigits _
    · exact digitsValue_toDigits _

theorem takeExponent_text (e : Int) (hrest : EndsNumber rest) :
    takeExponent ((Binary64.exponentText e).toList ++ rest) = (some e, rest) := by
  obtain ⟨run, htext, hne, hdigits, hvalue⟩ := exponentText_eq e
  obtain ⟨htake, hdrop⟩ := take_run (p := Char.isDigit) hdigits fun c hc => (hrest c hc).1
  rw [htext, List.cons_append, List.cons_append, takeExponent, if_pos (.inl rfl)]
  split_ifs with he
  all_goals
    simp only [Numeral.takeSign, htake, hdrop, hvalue, List.isEmpty_iff, hne, if_true,
      Bool.false_eq_true, if_false]
    congr 2
    omega

theorem takeFraction_run (h : ∀ c ∈ fraction, c.isDigit) (hne : fraction ≠ [])
    (hrest : ∀ c ∈ rest.head?, c.isDigit = false) :
    takeFraction ('.' :: (fraction ++ rest)) = (fraction, rest) := by
  obtain ⟨htake, hdrop⟩ := take_run (p := Char.isDigit) h hrest
  rw [takeFraction, htake, hdrop, if_neg (by simpa using hne)]

def afterWhole (fraction : List Char) (exponent : Option Int) : List Char :=
  (if fraction.isEmpty then [] else '.' :: fraction) ++
    exponent.elim [] fun e => (Binary64.exponentText e).toList

theorem head?_exponent (exponent : Option Int) (hrest : EndsNumber rest) : ∀ c ∈
    ((exponent.elim [] fun e => (Binary64.exponentText e).toList) ++ rest).head?,
      c.isDigit = false ∧ c ≠ '.' := by
  intro c hc
  cases exponent with
  | none => exact ⟨(hrest c hc).1, (hrest c hc).2.1⟩
  | some e =>
    obtain ⟨run, htext, -⟩ := exponentText_eq e
    rw [Option.elim, htext] at hc
    cases hc
    exact ⟨rfl, by decide⟩

theorem takeExponent_part (hrest : EndsNumber rest) :
    takeExponent ((exponent.elim [] fun e => (Binary64.exponentText e).toList) ++ rest) =
      (exponent, rest) := by
  cases exponent with
  | none => exact takeExponent_none hrest
  | some e => exact takeExponent_text e hrest

theorem takeFraction_part (hfraction : ∀ c ∈ fraction, c.isDigit)
    (hrest : ∀ c ∈ rest.head?, c.isDigit = false ∧ c ≠ '.') :
    takeFraction ((if fraction.isEmpty then [] else '.' :: fraction) ++ rest) =
      (fraction, rest) := by
  by_cases hne : fraction = []
  · subst hne
    rw [List.isEmpty_nil, if_pos rfl, List.nil_append, takeFraction]
    rintro more rfl
    exact (hrest '.' rfl).2 rfl
  · rw [if_neg (by simpa using hne), List.cons_append]
    exact takeFraction_run hfraction hne fun c hc => (hrest c hc).1

theorem head?_afterWhole (hrest : ∀ c ∈ rest.head?, c.isDigit = false ∧ c ≠ '.') :
    ∀ c ∈ ((if fraction.isEmpty then [] else '.' :: fraction) ++ rest).head?,
      c.isDigit = false := by
  intro c hc
  cases fraction with
  | nil => exact (hrest c hc).1
  | cons d ds =>
    cases hc
    rfl

theorem readNumber_parts (fractions : Fractions) (start : Nat) (negative : Bool)
    (exponent : Option Int) (hwhole : Whole whole) (hfraction : ∀ c ∈ fraction, c.isDigit)
    (hrest : EndsNumber rest) :
    readNumber fractions start negative (whole ++ (afterWhole fraction exponent ++ rest)) =
      match numberValue fractions negative whole fraction exponent with
      | .ok value => .ok (value, rest)
      | .error flaw => .error ⟨flaw, start⟩ := by
  have hexponent := head?_exponent exponent hrest
  rw [readNumber, afterWhole, List.append_assoc,
    takeWhole_run hwhole (head?_afterWhole hexponent)]
  cases hvalue : numberValue fractions negative whole fraction exponent <;>
    simp only [takeFraction_part hfraction hexponent, takeExponent_part hrest, hvalue]

/-- Whether parts make up a number with a fraction or an exponent, which is read as a decimal. -/
structure Parts (whole fraction : List Char) (exponent : Option Int) (negative : Bool)
    (d : Decimal) : Prop where
  digits : Whole whole
  decimals : ∀ c ∈ fraction, c.isDigit
  exact : (fraction.isEmpty && exponent.isNone) = false
  value : .finite negative (Nat.ofDigitChars 10 (whole ++ fraction) 0)
    (exponent.getD 0 - fraction.length) = d

theorem whole_zero : Whole ['0'] := ⟨'0', [], rfl, fun _ => rfl, isDigit_zero⟩

theorem whole_append {more : List Char} (hwhole : Whole digits) (hhead : digits.head? ≠ some '0')
    (hmore : ∀ c ∈ more, c.isDigit) : Whole (digits ++ more) := by
  obtain ⟨c, rest, rfl, -, hall⟩ := hwhole
  exact ⟨c, rest ++ more, rfl, fun hc => absurd (congrArg some hc) hhead, isDigit_append hall hmore⟩

theorem whole_take {n : Nat} (hn : 0 < n) (hwhole : Whole digits) : Whole (digits.take n) := by
  obtain ⟨c, rest, rfl, hzero, hall⟩ := hwhole
  obtain ⟨n, rfl⟩ : ∃ k, n = k + 1 := ⟨n - 1, by omega⟩
  refine ⟨c, rest.take n, rfl, fun hc => by rw [hzero hc, List.take_nil], ?_⟩
  exact fun d hd => hall d (List.mem_of_mem_take hd)

open Binary64 (shortestLayout)
open Decimal (ofDigits)

theorem write_parts (negative : Bool) (point : Int) (hwhole : Whole digits)
    (hhead : digits.head? ≠ some '0') : ∃ whole fraction exponent,
      (shortestLayout.write digits point).toList = whole ++ afterWhole fraction exponent ∧
        Parts whole fraction exponent negative (ofDigits negative digits point) := by
  obtain ⟨c, rest, hdigits, -, hall⟩ := id hwhole
  have hlength : 0 < digits.length := by simp [hdigits]
  simp only [Binary64.Layout.write]
  split_ifs with hpositional hsmall hlong
  · -- all digits after the point
    refine ⟨['0'], List.replicate (-point).toNat '0' ++ digits, none, ?_, whole_zero,
      isDigit_append (isDigit_zeros _) hall, ?_, ?_⟩
    · simp [afterWhole, hdigits]
    · simp [hdigits]
    · rw [ofDigits, if_neg (by omega)]
      congr 1
      · rw [Nat.ofDigitChars_append, Nat.ofDigitChars_append, Nat.ofDigitChars_replicate_zero]
        rfl
      · simp
        omega
  · -- all digits before the point
    have hhigh : point ≤ 16 := hpositional.2
    refine ⟨digits ++ List.replicate (point.toNat - digits.length) '0', ['0'], none, ?_,
      whole_append hwhole hhead (isDigit_zeros _), isDigit_zero, rfl, ?_⟩
    · simp [afterWhole, Binary64.shortestLayout]
    · have hzeros : power 10 (point - digits.length + 1) =
          10 ^ (point.toNat - digits.length) * 10 := by
        rw [power, ← Nat.pow_succ]
        congr 1
        omega
      rw [ofDigits, if_pos (by omega), hzeros]
      congr 1
      rw [Nat.ofDigitChars_append, Nat.ofDigitChars_append, Nat.ofDigitChars_replicate_zero]
      change 10 * _ + 0 = _
      ring
  · -- the point between two digits
    refine ⟨digits.take point.toNat, digits.drop point.toNat, none, ?_,
      whole_take (by omega) hwhole, fun d hd => hall d (List.mem_of_mem_drop hd), ?_, ?_⟩
    · have hmore : ¬(digits.drop point.toNat).isEmpty := by
        rw [List.isEmpty_iff, List.drop_eq_nil_iff]
        omega
      simp [afterWhole, hmore]
    · simp
      omega
    · rw [ofDigits, if_neg (by omega), List.take_append_drop]
      congr 1
      simp
      omega
  · -- one digit before the point, and an exponent
    have hfar : ¬(-4 < point ∧ point ≤ 16) := hpositional
    subst hdigits
    refine ⟨[c], rest, some (point - 1), ?_, ⟨c, [], rfl, fun _ => rfl, ?_⟩,
      fun d hd => hall d (List.mem_cons_of_mem c hd), by simp, ?_⟩
    · cases rest <;> simp [afterWhole]
    · exact List.forall_mem_singleton.mpr (hall c List.mem_cons_self)
    · rw [ofDigits, if_neg (by omega)]
      congr 1
      simp
      omega

theorem numberValue_parts {d : Decimal} (h : Parts whole fraction exponent negative d)
    (hlimits : ∃ c e, d = .finite negative c e ∧ Decimal.make? negative c e = some d) :
    numberValue .exact negative whole fraction exponent = .ok (.decimal d) := by
  have hdigits : ∀ c ∈ whole ++ fraction, c.isDigit := by
    obtain ⟨c, rest, -, -, hall⟩ := h.digits
    exact isDigit_append hall h.decimals
  have hmake : Decimal.make? negative (Nat.ofDigitChars 10 (whole ++ fraction) 0)
      (exponent.getD 0 - fraction.length) = some d := by
    obtain ⟨c, e, rfl, hmade⟩ := hlimits
    obtain ⟨-, rfl, rfl⟩ := Decimal.finite.inj h.value
    exact hmade
  rw [numberValue, h.exact, if_neg Bool.false_ne_true]
  dsimp only
  rw [Numeral.toDecimal?, digitsValue_eq hdigits, hmake]

theorem readsAs_number {d : Decimal} {v : Value} (h : Parts whole fraction exponent negative d)
    (hvalue : numberValue fractions negative whole fraction exponent = .ok v) :
    ReadsAs fractions
      ((Binary64.signText negative).toList ++ (whole ++ afterWhole fraction exponent)) v := by
  have hread := fun start rest (hrest : EndsNumber rest) =>
    readNumber_parts fractions start negative exponent h.digits h.decimals hrest
  simp only [hvalue] at hread
  obtain ⟨c, more, rfl, -, hall⟩ := h.digits
  have hc : c.isDigit := hall c List.mem_cons_self
  simp only [List.cons_append] at hread
  cases negative with
  | true =>
    refine .of_succ ⟨'-', _, rfl, by decide⟩ fun fuel rest _ hrest => ?_
    have hminus := readValue_minus fractions fuel hc (more ++ (afterWhole fraction exponent ++ rest))
    rw [hread _ _ hrest] at hminus
    simpa [Binary64.signText] using hminus
  | false =>
    refine .of_succ ⟨c, _, rfl, digit_starts hc⟩ fun fuel rest _ hrest => ?_
    have hdigit := readValue_digit fractions fuel hc (more ++ (afterWhole fraction exponent ++ rest))
    rw [hread _ _ hrest] at hdigit
    simpa [Binary64.signText] using hdigit

theorem readsAs_parts {d : Decimal} (h : Parts whole fraction exponent negative d)
    (hlimits : ∃ c e, d = .finite negative c e ∧ Decimal.make? negative c e = some d) :
    ReadsAs .exact ((Binary64.signText negative).toList ++ (whole ++ afterWhole fraction exponent))
      (.decimal d) := readsAs_number h (numberValue_parts h hlimits)

theorem whole_significantDigits {c : Nat} (hc : 0 < c) :
    Whole (Binary64.significantDigits c) ∧ (Binary64.significantDigits c).head? ≠ some '0' := by
  obtain ⟨zeros, hsplit⟩ := Binary64.significantDigits_append c
  obtain ⟨d, more, hdigits, hd⟩ := toDigits_pos c hc
  have hall : ∀ d ∈ Binary64.significantDigits c, d.isDigit := fun d hd =>
    isDigit_of_mem_toDigits (n := c) (hsplit ▸ List.mem_append_left _ hd)
  rw [hdigits] at hsplit
  cases hfirst : Binary64.significantDigits c with
  | nil =>
    rw [hfirst, List.nil_append] at hsplit
    exact absurd (List.eq_of_mem_replicate (hsplit ▸ List.mem_cons_self)) hd
  | cons e rest =>
    rw [hfirst] at hsplit hall
    obtain rfl : d = e := (List.cons.inj hsplit).1
    exact ⟨⟨d, rest, rfl, fun h => absurd h hd, hall⟩, fun h => hd (Option.some.inj h)⟩

theorem double_parts (negative : Bool) {significand : Nat} {exponent : Int}
    (h : Binary64.Proper significand exponent) : ∃ whole fraction e,
      (Binary64.text (.finite negative significand exponent)).toList =
        (Binary64.signText negative).toList ++ (whole ++ afterWhole fraction e) ∧
      Parts whole fraction e negative
        (Decimal.ofShortest (.finite negative significand exponent)) := by
  rcases significand.eq_zero_or_pos with rfl | hs
  · refine ⟨['0'], ['0'], none, ?_, whole_zero, isDigit_zero, rfl, rfl⟩
    rw [Binary64.text, String.toList_append]
    rfl
  · have hbottom : 0 < power 2 (-exponent) := power_pos (by decide) _
    have hback := Binary64.shortest_reads h hs hbottom (Binary64.magnitude_eq significand exponent)
    rw [Decimal.ofShortest_digits negative exponent hs]
    obtain ⟨s, rfl⟩ : ∃ s, significand = s + 1 := ⟨significand - 1, by omega⟩
    rcases hfound : Binary64.shortest ((s + 1) * power 2 exponent) (power 2 (-exponent)) with
      ⟨c, scale⟩
    simp only [hfound] at hback ⊢
    have hc : 0 < c := by
      refine Nat.pos_of_ne_zero fun hzero => ?_
      rw [hzero, Binary64.ofScaled, if_pos rfl] at hback
      cases hback
    obtain ⟨hwhole, hhead⟩ := whole_significantDigits hc
    obtain ⟨whole, fraction, e, htext, hparts⟩ :=
      write_parts negative (Decimal.digitCount c + scale) hwhole hhead
    have hwritten : Binary64.text (.finite negative (s + 1) exponent) = Binary64.signText negative ++
        shortestLayout.write (Binary64.significantDigits c) (Decimal.digitCount c + scale) := by
      simp only [Binary64.text, Binary64.magnitude, hfound]
      rfl
    refine ⟨whole, fraction, e, ?_, hparts⟩
    rw [hwritten, String.toList_append, htext]

theorem readsAs_double (negative : Bool) {significand : Nat} {exponent : Int}
    (h : Binary64.Proper significand exponent) :
    ReadsAs .exact (Binary64.text (.finite negative significand exponent)).toList
      (.decimal (Decimal.ofShortest (.finite negative significand exponent))) := by
  obtain ⟨whole, fraction, e, htext, hparts⟩ := double_parts negative h
  have hmade := hparts.value
  rw [htext]
  exact readsAs_parts hparts
    ⟨_, _, hmade.symm, hmade.symm ▸ Decimal.make?_ofShortest h hmade.symm⟩

theorem readsAs_same (negative : Bool) {significand : Nat} {exponent : Int}
    (h : Binary64.Proper significand exponent) :
    ReadsAs .double (Binary64.text (.finite negative significand exponent)).toList
      (.float (.finite negative significand exponent)) := by
  obtain ⟨whole, fraction, e, htext, hparts⟩ := double_parts negative h
  have hdigits : ∀ c ∈ whole ++ fraction, c.isDigit := by
    obtain ⟨c, rest, -, -, hall⟩ := hparts.digits
    exact isDigit_append hall hparts.decimals
  have hback := Decimal.toBinary64_ofShortest negative h
  rw [← hparts.value, Decimal.toBinary64, ← digitsValue_eq hdigits] at hback
  rw [htext]
  refine readsAs_number hparts ?_
  rw [numberValue, hparts.exact, if_neg Bool.false_ne_true, ← hback]
  rfl

end Json

end Rehearsal
