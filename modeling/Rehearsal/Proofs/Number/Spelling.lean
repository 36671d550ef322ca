import Rehearsal.Document.Coerce
import Rehearsal.Proofs.Number.Decimal
import Rehearsal.Proofs.Text.Digits

/-! How numbers are spelt. A spelling is a text of the numeral grammar taken apart: a sign, the
digits on both sides of the point, and an exponent. The reader accepts exactly the texts of
spellings, and the decimal it reads has the value of the spelling, with every digit of it. -/

namespace Rehearsal

namespace Text

theorem foldl_digit_append (cs : List Char) (n : Nat) :
    cs.foldl (fun n c => 10 * n + (digitValue? c).getD 0) n =
      n * 10 ^ cs.length + digitsValue cs := by
  induction cs generalizing n with
  | nil => simp [digitsValue]
  | cons c rest ih =>
    rw [digitsValue, List.foldl_cons, List.foldl_cons, ih, ih (10 * 0 + _), List.length_cons]
    ring

theorem digitsValue_append (cs ds : List Char) :
    digitsValue (cs ++ ds) = digitsValue cs * 10 ^ ds.length + digitsValue ds := by
  rw [digitsValue, List.foldl_append, foldl_digit_append]
  rfl

end Text

open Text

/-- The sign in front of a row of digits. -/
inductive Sign where
  | absent
  | plus
  | minus
  deriving DecidableEq, Repr

namespace Sign

def text : Sign → List Char
  | absent => []
  | plus => ['+']
  | minus => ['-']

def isMinus (sign : Sign) : Bool := sign == minus

end Sign

/-- A row of digits of any script, at least one. -/
structure DigitRow where
  digits : List Char
  isDigit_of_mem : ∀ c ∈ digits, isDigit c
  ne_nil : digits ≠ []

/-- A power of ten behind the digits of a number. -/
structure Exponent where
  mark : Char
  sign : Sign
  row : DigitRow
  mark_eq : mark = 'e' ∨ mark = 'E'

namespace Exponent

def text (x : Exponent) : List Char := x.mark :: (x.sign.text ++ x.row.digits)

def value (x : Exponent) : Int :=
  if x.sign.isMinus then -(digitsValue x.row.digits : Int) else digitsValue x.row.digits

end Exponent

/-- A numeral as it is written: an optional sign, digits with an optional point and at least one
digit, and an optional exponent. -/
structure Spelling where
  sign : Sign
  whole : List Char
  fraction : Option (List Char)
  exponent : Option Exponent
  isDigit_of_mem_whole : ∀ c ∈ whole, isDigit c
  isDigit_of_mem_fraction : ∀ c ∈ fraction.getD [], isDigit c
  digits_ne_nil : whole ++ fraction.getD [] ≠ []

namespace Spelling

def places (w : Spelling) : List Char := w.fraction.getD []

def pointText (w : Spelling) : List Char := (w.fraction.map ('.' :: ·)).getD []

def exponentText (w : Spelling) : List Char := (w.exponent.map Exponent.text).getD []

def text (w : Spelling) : List Char :=
  w.sign.text ++ (w.whole ++ (w.pointText ++ w.exponentText))

def power (w : Spelling) : Int := (w.exponent.map Exponent.value).getD 0

def value (w : Spelling) : ℚ :=
  Binary64.signed w.sign.isMinus
    ((digitsValue w.whole + digitsValue w.places / 10 ^ w.places.length) * 10 ^ w.power)

def numeral (w : Spelling) : Numeral :=
  ⟨w.sign.isMinus, digitsValue (w.whole ++ w.places), w.power - w.places.length⟩

/-- Whether the last digit and the leading digit stand at places that a decimal can have. -/
def InLimits (w : Spelling) : Prop :=
  Decimal.leastExponent ≤ w.power - w.places.length ∧
    Decimal.adjusted (digitsValue (w.whole ++ w.places)) (w.power - w.places.length) ≤
      Decimal.greatestAdjusted

end Spelling

namespace Numeral

variable {cs rest : List Char} {negative : Bool}

theorem isDigit_ne {c d : Char} (hc : isDigit c) (hd : isDigit d = false) : c ≠ d := by
  rintro rfl
  rw [hc] at hd
  exact Bool.noConfusion hd

theorem takeSign_text (sign : Sign) (hminus : rest.head? ≠ some '-')
    (hplus : rest.head? ≠ some '+') : takeSign (sign.text ++ rest) = (sign.isMinus, rest) := by
  cases sign with
  | plus => rfl
  | minus => rfl
  | absent =>
    change takeSign rest = (false, rest)
    unfold takeSign
    split
    · exact absurd rfl hminus
    · exact absurd rfl hplus
    · rfl

theorem exists_sign (cs : List Char) :
    ∃ sign : Sign, cs = sign.text ++ (takeSign cs).2 ∧ sign.isMinus = (takeSign cs).1 := by
  unfold takeSign
  split
  · exact ⟨.minus, rfl, rfl⟩
  · exact ⟨.plus, rfl, rfl⟩
  · exact ⟨.absent, rfl, rfl⟩

theorem takeSign_row (sign : Sign) (row : DigitRow) :
    takeSign (sign.text ++ row.digits) = (sign.isMinus, row.digits) := by
  have hhead : ∀ c, isDigit c = false → row.digits.head? ≠ some c := by
    intro c hc h
    exact isDigit_ne (row.isDigit_of_mem c (List.mem_of_mem_head? h)) hc rfl
  exact takeSign_text sign (hhead '-' (by decide)) (hhead '+' (by decide))

theorem readExponent_text (x : Exponent) : readExponent x.text = some x.value := by
  have hall : x.row.digits.all isDigit := List.all_eq_true.mpr x.row.isDigit_of_mem
  rw [Exponent.text, readExponent, if_pos x.mark_eq, takeSign_row]
  exact if_pos ⟨x.row.ne_nil, hall⟩

theorem readExponent_eq_some_iff (cs : List Char) (n : Int) :
    readExponent cs = some n ↔ ∃ x : Option Exponent,
      cs = (x.map Exponent.text).getD [] ∧ n = (x.map Exponent.value).getD 0 := by
  constructor
  · intro h
    cases cs with
    | nil => exact ⟨none, rfl, (Option.some_inj.mp h).symm⟩
    | cons c rest =>
      obtain ⟨sign, hrest, hsign⟩ := exists_sign rest
      rw [readExponent] at h
      split_ifs at h with hmark
      dsimp only at h
      by_cases hrow : (takeSign rest).2 ≠ [] ∧ (takeSign rest).2.all isDigit
      swap
      · rw [if_neg hrow] at h
        cases h
      rw [if_pos hrow] at h
      have hdigits : ∀ d ∈ (takeSign rest).2, isDigit d := List.all_eq_true.mp hrow.2
      refine ⟨some ⟨c, sign, ⟨_, hdigits, hrow.1⟩, hmark⟩, congrArg (c :: ·) hrest, ?_⟩
      rw [Option.map_some, Option.getD_some, Exponent.value, hsign]
      exact (Option.some_inj.mp h).symm
  · rintro ⟨x, rfl, rfl⟩
    cases x with
    | none => rfl
    | some x => exact readExponent_text x

end Numeral

namespace Spelling

open Numeral

variable (w : Spelling)

theorem exponentText_head {c : Char} (h : w.exponentText.head? = some c) : c = 'e' ∨ c = 'E' := by
  rw [exponentText] at h
  cases hx : w.exponent with
  | none =>
    rw [hx] at h
    cases h
  | some x =>
    rw [hx] at h
    cases h
    exact x.mark_eq

theorem exponentText_not_digit : ∀ c ∈ w.exponentText.head?, isDigit c = false := by
  intro c hc
  rcases w.exponentText_head hc with rfl | rfl <;> decide

theorem readExponent_exponentText : readExponent w.exponentText = some w.power :=
  (readExponent_eq_some_iff _ _).mpr ⟨w.exponent, rfl, rfl⟩

theorem readUnsigned_text :
    readUnsigned w.sign.isMinus (w.whole ++ (w.pointText ++ w.exponentText)) = some w.numeral := by
  have hne := w.digits_ne_nil
  have hplaces := w.isDigit_of_mem_fraction
  have hwhole : ∀ c ∈ (w.pointText ++ w.exponentText).head?, isDigit c = false := by
    intro c hc
    rw [pointText] at hc
    cases hf : w.fraction with
    | none => exact w.exponentText_not_digit c (by simpa [hf] using hc)
    | some fraction =>
      have hpoint : '.' = c := by simpa [hf] using hc
      subst hpoint
      decide
  obtain ⟨htake, hdrop⟩ := take_run w.isDigit_of_mem_whole hwhole
  simp only [readUnsigned, htake, hdrop]
  cases hf : w.fraction with
  | none =>
    rw [hf, Option.getD_none, List.append_nil] at hne
    have htext : w.pointText = [] := by rw [pointText, hf]; rfl
    rw [htext, List.nil_append]
    -- what follows the whole part is an exponent or nothing, so it does not start with a point
    split
    · next rest heq =>
      have hhead := w.exponentText_head (c := '.') (by rw [heq]; rfl)
      exact absurd hhead (by decide)
    · rw [if_neg hne, readExponent_exponentText]
      simp [numeral, places, hf]
  | some fraction =>
    rw [hf, Option.getD_some] at hne hplaces
    have htext : w.pointText = '.' :: fraction := by rw [pointText, hf]; rfl
    obtain ⟨htake', hdrop'⟩ := take_run hplaces w.exponentText_not_digit
    have hsome : ¬(w.whole = [] ∧ fraction = []) := by
      rintro ⟨hw, rfl⟩
      exact hne (by rw [hw]; rfl)
    rw [htext, List.cons_append]
    simp only [htake', hdrop', if_neg hsome, readExponent_exponentText, Option.map_some]
    simp [numeral, places, hf]

theorem unsigned_head {c : Char} (h : (w.whole ++ (w.pointText ++ w.exponentText)).head? = some c) :
    isDigit c ∨ c = '.' := by
  cases hw : w.whole with
  | cons d ds =>
    rw [hw] at h
    cases h
    exact .inl (w.isDigit_of_mem_whole _ (hw ▸ List.mem_cons_self))
  | nil =>
    have hne := w.digits_ne_nil
    cases hf : w.fraction with
    | none => simp [hw, hf] at hne
    | some fraction =>
      right
      rw [hw, pointText, hf] at h
      exact (Option.some_inj.mp h).symm

theorem read_text : Numeral.read w.text = some w.numeral := by
  have hsign : ∀ c, isDigit c = false → c ≠ '.' →
      (w.whole ++ (w.pointText ++ w.exponentText)).head? ≠ some c := by
    intro c hdigit hpoint h
    rcases w.unsigned_head h with hc | hc
    · exact isDigit_ne hc hdigit rfl
    · exact hpoint hc
  rw [Numeral.read, text, takeSign_text w.sign (hsign '-' (by decide) (by decide))
    (hsign '+' (by decide) (by decide))]
  exact w.readUnsigned_text

end Spelling

namespace Numeral

theorem exists_spelling_of_readUnsigned {sign : Sign} {cs : List Char} {n : Numeral}
    (h : readUnsigned sign.isMinus cs = some n) :
    ∃ w : Spelling, sign.text ++ cs = w.text ∧ n = w.numeral := by
  have hwhole : ∀ c ∈ cs.takeWhile isDigit, isDigit c := List.all_eq_true.mp List.all_takeWhile
  have hsplit := List.takeWhile_append_dropWhile (p := isDigit) (l := cs)
  unfold readUnsigned at h
  dsimp only at h
  split at h
  · next rest hrest =>
    have hplaces : ∀ c ∈ rest.takeWhile isDigit, isDigit c := List.all_eq_true.mp List.all_takeWhile
    split_ifs at h with hnone
    obtain ⟨e, he, rfl⟩ := Option.map_eq_some_iff.mp h
    obtain ⟨x, hx, rfl⟩ := (readExponent_eq_some_iff _ _).mp he
    have hne : cs.takeWhile isDigit ++ rest.takeWhile isDigit ≠ [] := by
      intro hnil
      exact hnone (List.append_eq_nil_iff.mp hnil)
    refine ⟨⟨sign, cs.takeWhile isDigit, some (rest.takeWhile isDigit), x, hwhole, hplaces, hne⟩,
      congrArg (sign.text ++ ·) ?_, rfl⟩
    calc cs = cs.takeWhile isDigit ++ '.' :: rest := by rw [← hrest, hsplit]
      _ = cs.takeWhile isDigit ++
          '.' :: (rest.takeWhile isDigit ++ rest.dropWhile isDigit) := by
        rw [List.takeWhile_append_dropWhile]
      _ = _ := by rw [hx]; rfl
  · next hpoint =>
    split_ifs at h with hnone
    obtain ⟨e, he, rfl⟩ := Option.map_eq_some_iff.mp h
    obtain ⟨x, hx, rfl⟩ := (readExponent_eq_some_iff _ _).mp he
    have hne : cs.takeWhile isDigit ++ [] ≠ [] := by rwa [List.append_nil]
    refine ⟨⟨sign, cs.takeWhile isDigit, none, x, hwhole, nofun, hne⟩,
      congrArg (sign.text ++ ·) ?_, ?_⟩
    · calc cs = cs.takeWhile isDigit ++ cs.dropWhile isDigit := hsplit.symm
        _ = _ := by rw [hx]; rfl
    · simp [Spelling.numeral, Spelling.places, Spelling.power]

theorem read_eq_some_iff (cs : List Char) (n : Numeral) :
    Numeral.read cs = some n ↔ ∃ w : Spelling, cs = w.text ∧ n = w.numeral := by
  constructor
  · intro h
    obtain ⟨sign, hcs, hsign⟩ := exists_sign cs
    rw [Numeral.read] at h
    dsimp only at h
    rw [← hsign] at h
    obtain ⟨w, htext, hw⟩ := exists_spelling_of_readUnsigned h
    exact ⟨w, hcs.trans htext, hw⟩
  · rintro ⟨w, rfl, rfl⟩
    exact w.read_text

end Numeral

namespace Spelling

variable (w : Spelling)

theorem value_eq : w.value = Binary64.signed w.numeral.negative
    (w.numeral.coefficient * 10 ^ w.numeral.scale) := by
  have hten : (10 : ℚ) ≠ 0 := by norm_num
  rw [value, numeral]
  dsimp only
  rw [digitsValue_append, zpow_sub₀ hten, zpow_natCast]
  congr 1
  push_cast
  field_simp

theorem toDecimal?_isSome_iff : w.numeral.toDecimal?.isSome ↔ w.InLimits := by
  rw [Numeral.toDecimal?, Decimal.make?, InLimits]
  split_ifs with h
  · simp only [numeral] at h ⊢
    simp only [Option.isSome_none, Bool.false_eq_true, false_iff]
    omega
  · simp only [numeral] at h ⊢
    simp only [Option.isSome_some, true_iff]
    omega

theorem toRat?_of_toDecimal? {d : Decimal} (h : w.numeral.toDecimal? = some d) :
    d.toRat? = some w.value := by
  rw [Numeral.toDecimal?, Decimal.make?] at h
  split_ifs at h
  cases h
  rw [Decimal.toRat?_finite, value_eq]

end Spelling

theorem Decimal.ofText?_eq_some_iff (s : String) (d : Decimal) :
    Decimal.ofText? s = some d ↔
      ∃ w : Spelling, trimBlank s.toList = w.text ∧ w.numeral.toDecimal? = some d := by
  rw [Decimal.ofText?, Option.bind_eq_some_iff]
  constructor
  · rintro ⟨n, hread, hd⟩
    obtain ⟨w, htext, rfl⟩ := (Numeral.read_eq_some_iff _ _).mp hread
    exact ⟨w, htext, hd⟩
  · rintro ⟨w, htext, hd⟩
    exact ⟨w.numeral, (Numeral.read_eq_some_iff _ _).mpr ⟨w, htext, rfl⟩, hd⟩

end Rehearsal
