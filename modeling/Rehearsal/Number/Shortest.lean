import Rehearsal.Number.Binary64

/-!
The texts of a double.

`Binary64.text` writes the fewest digits that read back as the same double, and of those the
nearest to it; `Binary64.general` writes six significant digits. Both lay the digits out alike: in
positional form near one, else with an exponent of at least two digits.
-/

namespace Rehearsal.Binary64

/-- Of the two multiples of `10 ^ scale` around `n / d`, the nearer that reads back as `x`. -/
def neighbour? (x : Binary64) (n d : Nat) (scale : Int) : Option Nat :=
  let top := n * power 10 (-scale)
  let bottom := d * power 10 scale
  let low := top / bottom
  let rest := top % bottom
  match ofScaled false low scale == x, ofScaled false (low + 1) scale == x with
  | true, true =>
    some (if 2 * rest < bottom then low else if bottom < 2 * rest then low + 1 else low + low % 2)
  | true, false => some low
  | false, true => some (low + 1)
  | false, false => none

/-- The coefficient and scale of the shortest decimal that reads back as `n / d`. -/
def shortest (n d : Nat) : Nat × Int :=
  let x := ofQuotient false n d
  let order := decimalOrder n d
  let hit := (List.range 17).findSome? fun (extra : Nat) =>
    (neighbour? x n d (order - extra)).map fun coefficient => (coefficient, order - (extra : Int))
  hit.getD (0, 0)

/-- How digits become text: which positions of the point are written positionally, and what
follows a whole number. -/
structure Layout where
  low : Int
  high : Int
  afterWhole : String

/-- Positional from `0.0001` up to below `10 ^ 16`, whole numbers with `.0`. -/
def shortestLayout : Layout := ⟨-4, 16, ".0"⟩

/-- Positional from `0.0001` up to below `10 ^ 6`, whole numbers bare. -/
def generalLayout : Layout := ⟨-4, 6, ""⟩

/-- The digits of a coefficient without the zeros at its end. -/
def significantDigits (coefficient : Nat) : List Char :=
  ((Nat.toDigits 10 coefficient).reverse.dropWhile (· == '0')).reverse

def exponentText (exponent : Int) : String :=
  let digits := Nat.toDigits 10 exponent.natAbs
  (if exponent < 0 then "e-" else "e+") ++ (if digits.length < 2 then "0" else "")
    ++ String.ofList digits

/-- Writes `0.digits * 10 ^ point`. -/
def Layout.write (layout : Layout) (digits : List Char) (point : Int) : String :=
  if layout.low < point ∧ point ≤ layout.high then
    if point ≤ 0 then
      "0." ++ String.ofList (List.replicate (-point).toNat '0' ++ digits)
    else
      let place := point.toNat
      if digits.length ≤ place then
        String.ofList (digits ++ List.replicate (place - digits.length) '0') ++ layout.afterWhole
      else
        String.ofList (digits.take place) ++ "." ++ String.ofList (digits.drop place)
  else
    match digits with
    | [] => "0"
    | [d] => String.ofList [d] ++ exponentText (point - 1)
    | d :: ds => String.ofList [d] ++ "." ++ String.ofList ds ++ exponentText (point - 1)

def signText (negative : Bool) : String := if negative then "-" else ""

/-- The shortest text that reads back as the same double. -/
def text : Binary64 → String
  | .nan => "nan"
  | .infinity negative => signText negative ++ "inf"
  | .finite negative 0 _ => signText negative ++ "0.0"
  | .finite negative significand exponent =>
    let (n, d) := magnitude significand exponent
    let (coefficient, scale) := shortest n d
    let point := (Nat.toDigits 10 coefficient).length + scale
    signText negative ++ shortestLayout.write (significantDigits coefficient) point

/-- Six significant digits, a tie going to the even one. -/
def general : Binary64 → String
  | .nan => "nan"
  | .infinity negative => signText negative ++ "inf"
  | .finite negative 0 _ => signText negative ++ "0"
  | .finite negative significand exponent =>
    let (n, d) := magnitude significand exponent
    let scale := decimalOrder n d - 5
    let coefficient := roundQuotient (n * power 10 (-scale)) (d * power 10 scale)
    let point := (Nat.toDigits 10 coefficient).length + scale
    signText negative ++ generalLayout.write (significantDigits coefficient) point

end Rehearsal.Binary64
