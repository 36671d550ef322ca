import Rehearsal.Text.Base64
import Rehearsal.Value.Float
import Rehearsal.Yaml.Tag

/-!
The values of scalars.

A scalar whose tag was found by its looks always has a value of that kind, a date that does not exist
apart. One that was given a tag may look like anything.
-/

namespace Rehearsal.Yaml

/-- Why a text gives no value: it is no YAML, or what it says cannot be. -/
inductive Refusal where
  | malformed
  | impossible (fault : Fault)
  deriving Repr, Inhabited

abbrev Reading := Except Refusal Value

namespace Scalar

def dropBars (s : String) : List Char := s.toList.filter (· != '_')

def negateIf (negative : Bool) (n : Int) : Int := if negative then -n else n

def inBase (base : Nat) (cs : List Char) : Except Fault Int :=
  let trimmed := Text.trimBlank cs
  let (negative, digits) := Numeral.takeSign trimmed
  let read : Option Int :=
    if base = 10 then Numeral.readInt? trimmed
    else if !digits.isEmpty && digits.all fun c => (Text.digitIn? base c).isSome then
      let value := (digits.filterMap (Text.digitIn? base)).foldl (fun n d => n * base + d) 0
      some (negateIf negative value)
    else none
  match read with
  | some n => .ok n
  | none =>
    .error (.badValue ("invalid literal for int() with base " ++ toString base ++ ": "
      ++ (Value.text (String.ofList cs)).shown))

def int (s : String) : Except Fault Int := do
  let (negative, cs) := Numeral.takeSign (dropBars s)
  let magnitude ←
    match cs with
    | [] => throw (Fault.raised .missingIndex "string index out of range")
    | ['0'] => pure 0
    | '0' :: 'b' :: digits => inBase 2 digits
    | '0' :: 'x' :: digits => inBase 16 digits
    | '0' :: _ => inBase 8 cs
    | cs =>
      if cs.contains ':' then
        (Text.parts ':' cs).foldlM (fun n part => do return n * 60 + (← inBase 10 part)) 0
      else inBase 10 cs
  return negateIf negative magnitude

def floatOf (cs : List Char) : Except Fault Binary64 :=
  let s := String.ofList cs
  Binary64.ofTextChecked (Value.text s).shown s

/-- The sum of numbers, each weighing sixty times as much as the next. -/
def sexagesimal (parts : List (List Char)) : Except Fault Binary64 := do
  let numbers ← parts.mapM floatOf
  let (sum, _) := numbers.reverse.foldl
    (fun (sum, weight) x => (sum + x * Binary64.ofNat weight, weight * 60)) (Binary64.ofNat 0, 1)
  return sum

def float (s : String) : Except Fault Binary64 := do
  let (negative, cs) := Numeral.takeSign (Text.lower (String.ofList (dropBars s))).toList
  let magnitude ←
    if s.toList.all (· == '_') then throw (Fault.raised .missingIndex "string index out of range")
    else if cs = ".inf".toList then pure (Binary64.infinity false)
    else if cs = ".nan".toList then pure Binary64.nan
    else if cs.contains ':' then sexagesimal (Text.parts ':' cs)
    else floatOf cs
  return if negative then -magnitude else magnitude

def bool (s : String) : Except Fault Bool :=
  let word := Text.lower s
  match Tag.boolWords.find? (·.1 == word) with
  | some (_, b) => .ok b
  | none => .error (.raised .missingKey word)

def timestamp (s : String) : Except Fault Value :=
  match Timestamp.read? s.toList with
  | some t => t.value
  | none => .error (.raised .missingAttribute "'NoneType' object has no attribute 'groupdict'")

/-- The letters of a base64 text up to its end, filled up to groups of four; other characters are
passed over. -/
def letters (count fills : Nat) : List Char → List Char
  | [] => []
  | c :: rest =>
    if c = '=' then
      if 2 ≤ count % 4 ∧ 4 ≤ count % 4 + (fills + 1) then List.replicate (4 - count % 4) '='
      else letters count (fills + 1) rest
    else if (Base64.letterValue? c).isSome then c :: letters (count + 1) 0 rest
    else letters count fills rest

def binary? (s : String) : Option (List UInt8) :=
  if s.toList.all fun c => c.toNat < 128 then Base64.decodeChars (letters 0 0 s.toList) else none

def lift {α : Type} (f : α → Value) : Except Fault α → Reading
  | .ok a => .ok (f a)
  | .error fault => .error (.impossible fault)

def value (tag : Tag) (s : String) : Reading :=
  match tag with
  | .null => .ok .null
  | .bool => lift .bool (bool s)
  | .int => lift .int (int s)
  | .float => lift .float (float s)
  | .timestamp => lift id (timestamp s)
  | .text => .ok (.text s)
  | .binary =>
    match binary? s with
    | some bytes => .ok (.bytes bytes)
    | none => .error .malformed
  | _ => .error .malformed

end Scalar

end Rehearsal.Yaml
