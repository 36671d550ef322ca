import Rehearsal.Proofs.Text.Utf8
import Rehearsal.Text.Base64

/-! Bytes written as base64 are read back. -/

namespace Rehearsal.Base64

theorem letterValue?_letter : ∀ n < 64, letterValue? (letter n) = some n := by decide +kernel

theorem letter_ne_fill : ∀ n < 64, letter n ≠ '=' := by decide +kernel

theorem toUInt8_eq (byte : UInt8) {n : Nat} (h : n = byte.toNat) : n.toUInt8 = byte := by
  rw [h, Nat.toUInt8_eq]
  exact UInt8.ofNat_toNat

theorem decodeChars_group {a b c d : Nat} (ha : a < 64) (hb : b < 64) (hc : c < 64) (hd : d < 64)
    (rest : List Char) :
    decodeChars (letter a :: letter b :: letter c :: letter d :: rest) =
      (decodeChars rest).map fun bytes =>
        let n := ((a * 64 + b) * 64 + c) * 64 + d
        (n / 65536).toUInt8 :: (n / 256 % 256).toUInt8 :: (n % 256).toUInt8 :: bytes := by
  rw [decodeChars]
  · simp only [letterValue?_letter, ha, hb, hc, hd]
    cases decodeChars rest <;> rfl
  · intro _ hfill
    exact absurd hfill (letter_ne_fill d hd)
  · intro hfill
    exact absurd hfill (letter_ne_fill d hd)

theorem decodeChars_encodeChars (bytes : List UInt8) :
    decodeChars (encodeChars bytes) = some bytes := by
  fun_induction encodeChars bytes with
  | case1 => rfl
  | case2 a n =>
    have ha := a.toNat_lt
    simp only [decodeChars, letterValue?_letter (n / 64) (by omega),
      letterValue?_letter (n % 64) (by omega)]
    rw [toUInt8_eq a (by omega)]
  | case3 a b n =>
    have ha := a.toNat_lt
    have hb := b.toNat_lt
    have hthird := letter_ne_fill (n % 64) (by omega)
    rw [decodeChars]
    · simp only [letterValue?_letter (n / 4096) (by omega),
        letterValue?_letter (n / 64 % 64) (by omega), letterValue?_letter (n % 64) (by omega)]
      rw [toUInt8_eq a (by omega), toUInt8_eq b (by omega)]
    · exact hthird
  | case4 a b c rest n ih =>
    have ha := a.toNat_lt
    have hb := b.toNat_lt
    have hc := c.toNat_lt
    rw [decodeChars_group (by omega) (by omega) (by omega) (by omega), ih]
    simp only [Option.map_some]
    rw [toUInt8_eq a (by omega), toUInt8_eq b (by omega), toUInt8_eq c (by omega)]

theorem decode_encode (bytes : List UInt8) : decode (encode bytes) = some bytes := by
  rw [decode, encode, String.toList_ofList, decodeChars_encodeChars]

end Rehearsal.Base64
