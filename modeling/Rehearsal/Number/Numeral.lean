import Rehearsal.Number.Decimal
import Rehearsal.Text.Basic
import Rehearsal.Text.LetterCase

/-!
Numbers as texts write them, with the digits of any script.

A numeral is an optional sign, digits with an optional point and at least one digit, and an
optional exponent. It stands for exactly the rational number written.
-/

namespace Rehearsal

/-- `± coefficient * 10 ^ scale`. -/
structure Numeral where
  negative : Bool
  coefficient : Nat
  scale : Int
  deriving DecidableEq, Repr

namespace Numeral

open Text

def takeSign : List Char → Bool × List Char
  | '-' :: rest => (true, rest)
  | '+' :: rest => (false, rest)
  | cs => (false, cs)

/-- The exponent that `cs` consists of: nothing, or `e`, an optional sign and digits. -/
def readExponent : List Char → Option Int
  | [] => some 0
  | c :: rest =>
    if c = 'e' ∨ c = 'E' then
      let (negative, digits) := takeSign rest
      if digits ≠ [] ∧ digits.all isDigit then
        some (if negative then -(digitsValue digits : Int) else digitsValue digits)
      else none
    else none

/-- Reads the unsigned part of a numeral. -/
def readUnsigned (negative : Bool) (cs : List Char) : Option Numeral :=
  let whole := cs.takeWhile isDigit
  match cs.dropWhile isDigit with
  | '.' :: rest =>
    let fraction := rest.takeWhile isDigit
    if whole = [] ∧ fraction = [] then none
    else
      (readExponent (rest.dropWhile isDigit)).map fun exponent =>
        ⟨negative, digitsValue (whole ++ fraction), exponent - fraction.length⟩
  | rest =>
    if whole = [] then none
    else (readExponent rest).map fun exponent => ⟨negative, digitsValue whole, exponent⟩

def read (cs : List Char) : Option Numeral :=
  let (negative, rest) := takeSign cs
  readUnsigned negative rest

def toDecimal? (n : Numeral) : Option Decimal := Decimal.make? n.negative n.coefficient n.scale

def toBinary64 (n : Numeral) : Binary64 := .ofScaled n.negative n.coefficient n.scale

/-- Drops underscores that stand between two digits; `none` if one stands elsewhere. -/
def dropUnderscores (before : Option Char) : List Char → Option (List Char)
  | [] => some []
  | '_' :: rest =>
    if (before.map isDigit).getD false && ((rest.head?).map isDigit).getD false then
      dropUnderscores (some '_') rest
    else none
  | c :: rest => (dropUnderscores (some c) rest).map (c :: ·)

/-- The double that a text writes: a numeral, infinity or NaN, blanks around it ignored. -/
def readBinary64? (s : String) : Option Binary64 :=
  match dropUnderscores none (trimBlank s.toList) with
  | none => none
  | some cs =>
    let (negative, rest) := takeSign cs
    let word := lower (String.ofList rest)
    if word = "inf" ∨ word = "infinity" then some (.infinity negative)
    else if word = "nan" then some .nan
    else (read cs).map toBinary64

def readInt? (cs : List Char) : Option Int :=
  let (negative, digits) := takeSign cs
  if digits ≠ [] ∧ digits.all isDigit then
    some (if negative then -(digitsValue digits : Int) else digitsValue digits)
  else none

end Numeral

end Rehearsal
