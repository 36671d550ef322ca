import Rehearsal.Number.Shortest

/-!
Exact decimals: a sign, a whole coefficient and a power of ten.

The digits and the exponent are kept as they were written, so `1.50` and `1.5` are two decimals of
one value. Order and equality look at the value; they first compare the place of the leading digit
and align two coefficients only when those agree, so an exponent of any size costs nothing.
-/

namespace Rehearsal

inductive Decimal where
  | nan
  | infinity (negative : Bool)
  | finite (negative : Bool) (coefficient : Nat) (exponent : Int)
  deriving DecidableEq, Repr, Inhabited

namespace Decimal

/-- The number of digits that write a coefficient. -/
def digitCount (n : Nat) : Nat := (Nat.toDigits 10 n).length

/-- The power of ten of the leading digit. -/
def adjusted (coefficient : Nat) (exponent : Int) : Int := exponent + digitCount coefficient - 1

def greatestAdjusted : Int := 999999999999999999

def leastExponent : Int := -1999999999999999997

/-- The decimal with these parts, if its exponent is within the limits. -/
def make? (negative : Bool) (coefficient : Nat) (exponent : Int) : Option Decimal :=
  if greatestAdjusted < adjusted coefficient exponent ∨ exponent < leastExponent then none
  else some (.finite negative coefficient exponent)

def ofInt (n : Int) : Decimal := .finite (n < 0) n.natAbs 0

def ofBinary64 : Binary64 → Decimal
  | .nan => .nan
  | .infinity negative => .infinity negative
  | .finite negative significand exponent =>
    if 0 ≤ exponent then .finite negative (significand * power 2 exponent) 0
    else .finite negative (significand * power 5 (-exponent)) exponent

/-- The decimal that the shortest text of a double writes. -/
def ofShortest : Binary64 → Decimal
  | .nan => .nan
  | .infinity negative => .infinity negative
  | .finite negative 0 _ => .finite negative 0 (-1)
  | .finite negative significand exponent =>
    let (n, d) := Binary64.magnitude significand exponent
    let (coefficient, scale) := Binary64.shortest n d
    let digits := Binary64.significantDigits coefficient
    let point := digitCount coefficient + scale
    let exponent := point - digits.length
    let coefficient := coefficient / power 10 (exponent - scale)
    -- a whole number in positional form is written with one zero after the point
    if point ≤ 16 ∧ 0 ≤ exponent then
      .finite negative (coefficient * power 10 (exponent + 1)) (-1)
    else .finite negative coefficient exponent

def toRat? : Decimal → Option Rat
  | .finite negative coefficient exponent =>
    some (mkRat ((if negative then -1 else 1) * ((coefficient * power 10 exponent : Nat) : Int))
      (power 10 (-exponent)))
  | _ => none

def isFinite : Decimal → Bool
  | .finite .. => true
  | _ => false

def isZero : Decimal → Bool
  | .finite _ 0 _ => true
  | _ => false

/-- Order of `c * 10 ^ e` and `c' * 10 ^ e'`. -/
def compareMagnitude (c : Nat) (e : Int) (c' : Nat) (e' : Int) : Ordering :=
  if c = 0 then if c' = 0 then .eq else .lt
  else if c' = 0 then .gt
  else if adjusted c e < adjusted c' e' then .lt
  else if adjusted c' e' < adjusted c e then .gt
  else compare (c * power 10 (e - e')) (c' * power 10 (e' - e))

/-- The order of two decimals by value, which a NaN has with none. -/
def compare? : Decimal → Decimal → Option Ordering
  | .nan, _ => none
  | _, .nan => none
  | .infinity a, .infinity b => some (if a == b then .eq else if a then .lt else .gt)
  | .infinity a, _ => some (if a then .lt else .gt)
  | _, .infinity b => some (if b then .gt else .lt)
  | .finite n c e, .finite n' c' e' =>
    if c = 0 ∧ c' = 0 then some .eq
    else if c = 0 then some (if n' then .gt else .lt)
    else if c' = 0 then some (if n then .lt else .gt)
    else
      match n, n' with
      | false, true => some .gt
      | true, false => some .lt
      | false, false => some (compareMagnitude c e c' e')
      | true, true => some (compareMagnitude c' e' c e)

/-- Whether two decimals have one value. -/
def equal (a b : Decimal) : Bool := compare? a b == some .eq

def toInt? : Decimal → Option Int
  | .finite negative coefficient exponent =>
    let signed (n : Nat) : Int := if negative then -(n : Int) else n
    if 0 ≤ exponent then some (signed (coefficient * power 10 exponent))
    else if coefficient = 0 then some 0
    else if digitCount coefficient ≤ (-exponent).toNat then none
    else
      let unit := power 10 (-exponent)
      if coefficient % unit = 0 then some (signed (coefficient / unit)) else none
  | _ => none

def toBinary64 : Decimal → Binary64
  | .nan => .nan
  | .infinity negative => .infinity negative
  | .finite negative coefficient exponent => .ofScaled negative coefficient exponent

/-- The digits with the point where the exponent puts it; scientific when the exponent is positive
or the leading digit stands after five zeros. -/
def text : Decimal → String
  | .nan => "NaN"
  | .infinity negative => Binary64.signText negative ++ "Infinity"
  | .finite negative coefficient exponent =>
    let digits := Nat.toDigits 10 coefficient
    let point : Int := exponent + digits.length
    let place : Int := if exponent ≤ 0 ∧ -6 < point then point else 1
    let body :=
      if place ≤ 0 then
        "0." ++ String.ofList (List.replicate (-place).toNat '0' ++ digits)
      else if digits.length ≤ place.toNat then
        String.ofList (digits ++ List.replicate (place.toNat - digits.length) '0')
      else
        String.ofList (digits.take place.toNat) ++ "." ++ String.ofList (digits.drop place.toNat)
    let tail :=
      if point = place then ""
      else if point < place then "E-" ++ toString (place - point)
      else "E+" ++ toString (point - place)
    Binary64.signText negative ++ body ++ tail

end Decimal

end Rehearsal
