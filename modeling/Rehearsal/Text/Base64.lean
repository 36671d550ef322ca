/-!
Bytes as base64 text: three bytes become four letters, and `=` fills the last group.
-/

namespace Rehearsal.Base64

def alphabet : List Char :=
  "ABCDEFGHIJKLMNOPQRSTUVWXYZabcdefghijklmnopqrstuvwxyz0123456789+/".toList

def letter (n : Nat) : Char := (alphabet[n]?).getD '='

def encodeChars : List UInt8 → List Char
  | [] => []
  | [a] =>
    let n := a.toNat * 16
    [letter (n / 64), letter (n % 64), '=', '=']
  | [a, b] =>
    let n := (a.toNat * 256 + b.toNat) * 4
    [letter (n / 4096), letter (n / 64 % 64), letter (n % 64), '=']
  | a :: b :: c :: rest =>
    let n := (a.toNat * 256 + b.toNat) * 256 + c.toNat
    letter (n / 262144) :: letter (n / 4096 % 64) :: letter (n / 64 % 64) :: letter (n % 64)
      :: encodeChars rest

def encode (bytes : List UInt8) : String := String.ofList (encodeChars bytes)

def letterValue? (c : Char) : Option Nat := alphabet.findIdx? (· == c)

/-- Reads groups of four letters; `none` where the text is not base64. -/
def decodeChars : List Char → Option (List UInt8)
  | [] => some []
  | [a, b, '=', '='] =>
    match letterValue? a, letterValue? b with
    | some a, some b => some [((a * 64 + b) / 16).toUInt8]
    | _, _ => none
  | [a, b, c, '='] =>
    match letterValue? a, letterValue? b, letterValue? c with
    | some a, some b, some c =>
      let n := ((a * 64 + b) * 64 + c) / 4
      some [(n / 256).toUInt8, (n % 256).toUInt8]
    | _, _, _ => none
  | a :: b :: c :: d :: rest =>
    match letterValue? a, letterValue? b, letterValue? c, letterValue? d, decodeChars rest with
    | some a, some b, some c, some d, some bytes =>
      let n := ((a * 64 + b) * 64 + c) * 64 + d
      some ((n / 65536).toUInt8 :: (n / 256 % 256).toUInt8 :: (n % 256).toUInt8 :: bytes)
    | _, _, _, _, _ => none
  | _ => none

def decode (s : String) : Option (List UInt8) := decodeChars s.toList

end Rehearsal.Base64
