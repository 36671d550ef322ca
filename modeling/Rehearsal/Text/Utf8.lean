/-!
Characters as bytes, in UTF-8.

The reader is a machine over single bytes: between characters, or inside one with so many tail
bytes owed and a range for the next of them. It stops at the first byte that no character can
have there, and says where that character began and how many of its bytes were well placed.
-/

namespace Rehearsal.Utf8

def encodeChar (c : Char) : List UInt8 :=
  let n := c.toNat
  if n < 0x80 then [n.toUInt8]
  else if n < 0x800 then [(0xC0 + n / 64).toUInt8, (0x80 + n % 64).toUInt8]
  else if n < 0x10000 then
    [(0xE0 + n / 4096).toUInt8, (0x80 + n / 64 % 64).toUInt8, (0x80 + n % 64).toUInt8]
  else
    [(0xF0 + n / 262144).toUInt8, (0x80 + n / 4096 % 64).toUInt8, (0x80 + n / 64 % 64).toUInt8,
      (0x80 + n % 64).toUInt8]

def encodeChars (cs : List Char) : List UInt8 := cs.flatMap encodeChar

def encode (s : String) : List UInt8 := encodeChars s.toList

/-- A character that has begun: tail bytes owed, the range of the next one, the bits read so far,
and where and with which byte it began. -/
structure Pending where
  owed : Nat
  low : Nat
  high : Nat
  code : Nat
  start : Nat
  first : UInt8
  deriving DecidableEq, Repr

/-- What a byte between characters means. -/
inductive Lead where
  | single (c : Char)
  | opens (pending : Pending)
  | wrong
  deriving DecidableEq, Repr

def lead (position : Nat) (byte : UInt8) : Lead :=
  let b := byte.toNat
  if b < 0x80 then .single (Char.ofNat b)
  else if b < 0xC2 then .wrong
  else if b < 0xE0 then .opens ⟨1, 0x80, 0xBF, b - 0xC0, position, byte⟩
  else if b = 0xE0 then .opens ⟨2, 0xA0, 0xBF, 0, position, byte⟩
  else if b = 0xED then .opens ⟨2, 0x80, 0x9F, 13, position, byte⟩
  else if b < 0xF0 then .opens ⟨2, 0x80, 0xBF, b - 0xE0, position, byte⟩
  else if b = 0xF0 then .opens ⟨3, 0x90, 0xBF, 0, position, byte⟩
  else if b < 0xF4 then .opens ⟨3, 0x80, 0xBF, b - 0xF0, position, byte⟩
  else if b = 0xF4 then .opens ⟨3, 0x80, 0x8F, 4, position, byte⟩
  else .wrong

def Pending.accepts (p : Pending) (byte : UInt8) : Bool :=
  p.low ≤ byte.toNat && byte.toNat ≤ p.high

def Pending.codeWith (p : Pending) (byte : UInt8) : Nat := 64 * p.code + byte.toNat % 64

/-- The pending character after one more tail byte. -/
def Pending.push (p : Pending) (byte : UInt8) : Pending :=
  ⟨p.owed - 1, 0x80, 0xBF, p.codeWith byte, p.start, p.first⟩

inductive Flaw where
  | startByte
  | continuationByte
  | endOfData
  deriving DecidableEq, Repr

def Flaw.text : Flaw → String
  | .startByte => "invalid start byte"
  | .continuationByte => "invalid continuation byte"
  | .endOfData => "unexpected end of data"

/-- Where bytes stop being text: the flawed character begins at `start` with `first` and spans
`width` bytes. -/
structure Error where
  flaw : Flaw
  start : Nat
  width : Nat
  first : UInt8
  deriving DecidableEq, Repr

def hexByte (b : UInt8) : String :=
  let digits := Nat.toDigits 16 b.toNat
  String.ofList (if digits.length < 2 then '0' :: digits else digits)

def Error.message (e : Error) : String :=
  let place :=
    if e.width = 1 then "byte 0x" ++ hexByte e.first ++ " in position " ++ toString e.start
    else "bytes in position " ++ toString e.start ++ "-" ++ toString (e.start + e.width - 1)
  "'utf-8' codec can't decode " ++ place ++ ": " ++ e.flaw.text

/-- Reads bytes from `position` on, with the character that has begun, if any. -/
def decodeFrom (position : Nat) : Option Pending → List UInt8 → Except Error (List Char)
  | none, [] => .ok []
  | some p, [] => .error ⟨.endOfData, p.start, position - p.start, p.first⟩
  | none, byte :: rest =>
    match lead position byte with
    | .single c => (decodeFrom (position + 1) none rest).map (c :: ·)
    | .opens p => decodeFrom (position + 1) (some p) rest
    | .wrong => .error ⟨.startByte, position, 1, byte⟩
  | some p, byte :: rest =>
    if p.accepts byte then
      if p.owed ≤ 1 then
        (decodeFrom (position + 1) none rest).map (Char.ofNat (p.codeWith byte) :: ·)
      else decodeFrom (position + 1) (some (p.push byte)) rest
    else .error ⟨.continuationByte, p.start, position - p.start, p.first⟩

def decode (bytes : List UInt8) : Except Error String :=
  (decodeFrom 0 none bytes).map String.ofList

/-- Bytes without the byte order mark that may stand before them. -/
def dropMark : List UInt8 → List UInt8
  | 0xEF :: 0xBB :: 0xBF :: rest => rest
  | bytes => bytes

def replacement : Char := Char.ofNat 0xFFFD

/-- Reads bytes as far as they are text and writes the replacement character for each flaw. -/
def decodeLossyFrom : Option Pending → List UInt8 → List Char
  | none, [] => []
  | some _, [] => [replacement]
  | none, byte :: rest =>
    match lead 0 byte with
    | .single c => c :: decodeLossyFrom none rest
    | .opens p => decodeLossyFrom (some p) rest
    | .wrong => replacement :: decodeLossyFrom none rest
  | some p, byte :: rest =>
    if p.accepts byte then
      if p.owed ≤ 1 then Char.ofNat (p.codeWith byte) :: decodeLossyFrom none rest
      else decodeLossyFrom (some (p.push byte)) rest
    else
      match lead 0 byte with
      | .single c => replacement :: c :: decodeLossyFrom none rest
      | .opens p => replacement :: decodeLossyFrom (some p) rest
      | .wrong => replacement :: replacement :: decodeLossyFrom none rest

def decodeLossy (bytes : List UInt8) : String := String.ofList (decodeLossyFrom none bytes)

end Rehearsal.Utf8
