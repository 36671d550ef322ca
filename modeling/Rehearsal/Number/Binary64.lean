/-!
Double precision numbers as plain data.

A finite number is `significand * 2 ^ exponent` with a sign. Every operation computes the exact
rational answer first and rounds once, to the nearest double, a tie going to the even neighbour.
So a law about an operation is a law about rationals and about `Binary64.ofQuotient`.
-/

/-!
Powers with integer exponents, kept whole: a quotient is scaled up by multiplying its upper part, and
down by multiplying its lower part.
-/

namespace Rehearsal

/-- `base ^ exponent`, where an exponent below zero counts as zero. -/
def power (base : Nat) (exponent : Int) : Nat := Nat.pow base exponent.toNat

@[simp] theorem power_zero (base : Nat) : power base 0 = 1 := rfl

theorem power_of_nonpos (base : Nat) {exponent : Int} (h : exponent ≤ 0) :
    power base exponent = 1 := by
  have : exponent.toNat = 0 := by omega
  rw [power, this]
  rfl

theorem power_pos {base : Nat} (h : 0 < base) (exponent : Int) : 0 < power base exponent :=
  Nat.pow_pos h

/-! Rounding to doubles, and operations on them. -/

/-- The integer nearest to `n / d`; a tie goes to the even one. -/
def roundQuotient (n d : Nat) : Nat :=
  let q := n / d
  let r := n % d
  if 2 * r < d then q else if d < 2 * r then q + 1 else q + q % 2

/-- The exponent `k` with `10 ^ k ≤ n / d < 10 ^ (k + 1)`, for a positive quotient. -/
def decimalOrder (n d : Nat) : Int :=
  if d ≤ n then ((Nat.toDigits 10 (n / d)).length : Int) - 1
  else -((Nat.toDigits 10 ((d - 1) / n)).length : Int)

inductive Binary64 where
  | nan
  | infinity (negative : Bool)
  | finite (negative : Bool) (significand : Nat) (exponent : Int)
  deriving DecidableEq, Repr, Inhabited

namespace Binary64

def leastExponent : Int := -1074

def greatestExponent : Int := 971

def zero (negative : Bool) : Binary64 := .finite negative 0 leastExponent

/-- The exponent of the last place that a double near `n / d` has room for. -/
def lastPlace (n d : Nat) : Int :=
  let guess : Int := (n.log2 : Int) - d.log2
  let order := if d * power 2 guess ≤ n * power 2 (-guess) then guess else guess - 1
  max (order - 52) leastExponent

def ofQuotient (negative : Bool) (n d : Nat) : Binary64 :=
  if n = 0 then zero negative
  else
    let place := lastPlace n d
    let significand := roundQuotient (n * power 2 (-place)) (d * power 2 place)
    let (significand, place) :=
      if significand = power 2 53 then (power 2 52, place + 1) else (significand, place)
    if place > greatestExponent then .infinity negative else .finite negative significand place

def ofRat (negativeZero : Bool) (q : Rat) : Binary64 :=
  if q.num = 0 then zero negativeZero else ofQuotient (q.num < 0) q.num.natAbs q.den

def ofInt (n : Int) : Binary64 := ofQuotient (n < 0) n.natAbs 1

def ofNat (n : Nat) : Binary64 := ofInt n

def ofScaled (negative : Bool) (coefficient : Nat) (scale : Int) : Binary64 :=
  let order : Int := (Nat.toDigits 10 coefficient).length + scale
  if coefficient = 0 then zero negative
  else if order > 400 then .infinity negative
  else if order < -400 then zero negative
  else ofQuotient negative (coefficient * power 10 scale) (power 10 (-scale))

/-- Numerator and denominator of the absolute value of a finite double. -/
def magnitude (significand : Nat) (exponent : Int) : Nat × Nat :=
  (significand * power 2 exponent, power 2 (-exponent))

/-- The exact value of a finite double. -/
def toRat? : Binary64 → Option Rat
  | .finite negative significand exponent =>
    let (n, d) := magnitude significand exponent
    some (mkRat (if negative then -(n : Int) else n) d)
  | _ => none

def isNan : Binary64 → Bool
  | .nan => true
  | _ => false

def isNegative : Binary64 → Bool
  | .nan => false
  | .infinity negative => negative
  | .finite negative _ _ => negative

def isFinite : Binary64 → Bool
  | .finite .. => true
  | _ => false

def isZero : Binary64 → Bool
  | .finite _ 0 _ => true
  | _ => false

def neg : Binary64 → Binary64
  | .nan => .nan
  | .infinity negative => .infinity (!negative)
  | .finite negative significand exponent => .finite (!negative) significand exponent

/-- The order of two numbers, which a NaN has with none. -/
def compare? : Binary64 → Binary64 → Option Ordering
  | .nan, _ => none
  | _, .nan => none
  | .infinity a, .infinity b => some (if a == b then .eq else if a then .lt else .gt)
  | .infinity a, _ => some (if a then .lt else .gt)
  | _, .infinity b => some (if b then .gt else .lt)
  | x, y =>
    match x.toRat?, y.toRat? with
    | some p, some q => some (if p < q then .lt else if q < p then .gt else .eq)
    | _, _ => none

def equal (x y : Binary64) : Bool := compare? x y == some .eq

def less (x y : Binary64) : Bool := compare? x y == some .lt

def atMost (x y : Binary64) : Bool := less x y || equal x y

def add : Binary64 → Binary64 → Binary64
  | .nan, _ => .nan
  | _, .nan => .nan
  | .infinity a, .infinity b => if a == b then .infinity a else .nan
  | .infinity a, _ => .infinity a
  | _, .infinity b => .infinity b
  | x, y =>
    match x.toRat?, y.toRat? with
    | some p, some q => ofRat (x.isNegative && y.isNegative) (p + q)
    | _, _ => .nan

def sub (x y : Binary64) : Binary64 := add x y.neg

def mul (x y : Binary64) : Binary64 :=
  let negative := x.isNegative != y.isNegative
  match x, y with
  | .nan, _ => .nan
  | _, .nan => .nan
  | .infinity _, y => if y.isZero then .nan else .infinity negative
  | x, .infinity _ => if x.isZero then .nan else .infinity negative
  | x, y =>
    match x.toRat?, y.toRat? with
    | some p, some q => ofRat negative (p * q)
    | _, _ => .nan

def div (x y : Binary64) : Binary64 :=
  let negative := x.isNegative != y.isNegative
  match x, y with
  | .nan, _ => .nan
  | _, .nan => .nan
  | .infinity _, .infinity _ => .nan
  | .infinity _, _ => .infinity negative
  | _, .infinity _ => zero negative
  | x, y =>
    match x.toRat?, y.toRat? with
    | some p, some q => if q.num = 0 then .nan else ofRat negative (p / q)
    | _, _ => .nan

instance : Add Binary64 := ⟨add⟩
instance : Sub Binary64 := ⟨sub⟩
instance : Mul Binary64 := ⟨mul⟩
instance : Div Binary64 := ⟨div⟩
instance : Neg Binary64 := ⟨neg⟩

/-- The integer next to a finite double on the side of zero. -/
def truncate? (x : Binary64) : Option Int :=
  match x with
  | .finite negative significand exponent =>
    let (n, d) := magnitude significand exponent
    some (if negative then -((n / d : Nat) : Int) else ((n / d : Nat) : Int))
  | _ => none

/-- A finite double rounded to the nearest integer, a tie going to the even one. -/
def nearestInt? (x : Binary64) : Option Int :=
  match x with
  | .finite negative significand exponent =>
    let (n, d) := magnitude significand exponent
    let q := roundQuotient n d
    some (if negative then -(q : Int) else (q : Int))
  | _ => none

/-- A number rounded to `places` digits after the point. -/
def roundTo (places : Nat) (x : Binary64) : Binary64 :=
  match x with
  | .finite negative significand exponent =>
    let (n, d) := magnitude significand exponent
    ofQuotient negative (roundQuotient (n * power 10 places) d) (power 10 places)
  | x => x

end Binary64

end Rehearsal
