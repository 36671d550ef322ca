import Rehearsal.Text.Basic
import Rehearsal.Text.Utf8

/-!
Hosts of URLs, by name or by address, and the characters in which a URL is written.
-/

/-!
Percent-encoding, and the texts of forms and queries.
-/

namespace Rehearsal.Url

def upperHex (n : Nat) : Char := (Char.ofNat (if n < 10 then 48 + n else 55 + n))

def percentByte (b : UInt8) : List Char := ['%', upperHex (b.toNat / 16), upperHex (b.toNat % 16)]

def percentChar (c : Char) : List Char := (Utf8.encodeChar c).flatMap percentByte

def isAsciiLetterOrDigit (c : Char) : Bool :=
  ('a' ≤ c && c ≤ 'z') || ('A' ≤ c && c ≤ 'Z') || ('0' ≤ c && c ≤ '9')

def isUnreserved (c : Char) : Bool :=
  isAsciiLetterOrDigit c || c == '-' || c == '.' || c == '_' || c == '~'

/-- A form text: a plus for each space, and a percent code for each reserved character. -/
def formText (s : String) : List Char :=
  s.toList.flatMap fun c =>
    if c == ' ' then ['+'] else if isUnreserved c then [c] else percentChar c

def formPairs (pairs : List (String × String)) : List Char :=
  match pairs with
  | [] => []
  | [(name, value)] => formText name ++ '=' :: formText value
  | (name, value) :: rest => formText name ++ '=' :: formText value ++ '&' :: formPairs rest

end Rehearsal.Url

/-!
Labels of host names in ASCII.

The ASCII characters of a label come first. Every other character is then written as the distance
to the one before it in an order by code and place, in digits of base 36 whose thresholds follow
the distances seen so far.
-/

namespace Rehearsal.Url.Punycode

def digit (n : Nat) : Char := Char.ofNat (if n < 26 then 97 + n else 22 + n)

/-- Where the digits that end a number stop, at a place and for a bias. -/
def threshold (place bias : Nat) : Nat :=
  if place ≤ bias then 1 else if bias + 26 ≤ place then 26 else place - bias

theorem threshold_pos (place bias : Nat) : 0 < threshold place bias := by
  unfold threshold
  split
  · omega
  · split <;> omega

/-- A distance in digits, the lightest first. -/
def digits (bias place n : Nat) : List Char :=
  let t := threshold place bias
  if n < t then [digit n]
  else digit (t + (n - t) % (36 - t)) :: digits bias (place + 36) ((n - t) / (36 - t))
termination_by n
decreasing_by
  have := threshold_pos place bias
  exact Nat.lt_of_le_of_lt (Nat.div_le_self _ _) (by omega)

/-- How often a distance is cut down before it fits one digit, in steps of a place, and what is
left of it. -/
def shrink (steps distance : Nat) : Nat × Nat :=
  if 455 < distance then shrink (steps + 36) (distance / 35) else (steps, distance)
termination_by distance

/-- The bias after a distance, with so many characters written. -/
def adapt (distance written : Nat) (first : Bool) : Nat :=
  let halved := distance / (if first then 700 else 2)
  let (steps, left) := shrink 0 (halved + halved / written)
  steps + 36 * left / (left + 38)

/-- The text so far, the distance gone since its last character, and how many are written. -/
structure Progress where
  text : List Char
  distance : Nat
  bias : Nat
  written : Nat

/-- Passes a character of the label on the way to those of a code. -/
def pass (basic code : Nat) (p : Progress) (c : Char) : Progress :=
  if c.toNat < code then { p with distance := p.distance + 1 }
  else if c.toNat = code then
    { text := p.text ++ digits p.bias 36 p.distance
      distance := 0
      bias := adapt p.distance (p.written + 1) (p.written == basic)
      written := p.written + 1 }
  else p

/-- Writes the characters of each code; `next` is the lowest code that may still come. -/
def passAll (label : List Char) (basic next : Nat) (p : Progress) : List Nat → Progress
  | [] => p
  | code :: rest =>
    let p := { p with distance := p.distance + (code - next) * (p.written + 1) }
    let p := label.foldl (pass basic code) p
    passAll label basic (code + 1) { p with distance := p.distance + 1 } rest

def encode (label : List Char) : List Char :=
  let basic := label.filter fun c => c.toNat < 128
  let others := (label.map Char.toNat).filter fun code => 128 ≤ code
  let codes := (others.mergeSort fun a b => a ≤ b).eraseDups
  let start := if basic.isEmpty then [] else basic ++ ['-']
  (passAll label basic.length 128 ⟨start, 0, 72, basic.length⟩ codes).text

end Rehearsal.Url.Punycode

/-!
Names of hosts in characters of any script, written in ASCII label by label.
-/

namespace Rehearsal.Url.HostName

/-- The marks that divide labels are those that stand for a full stop. -/
def isDivider (c : Char) : Bool := c == '.' || [0x3002, 0xff0e, 0xff61].contains c.toNat

def isLabelPart (c : Char) : Bool := 128 ≤ c.toNat || c == '-' || isAsciiLetterOrDigit c

/-- Whether a label has hyphens only inside, and no pair of them where a mark of another form
stands. -/
def hasGoodHyphens (label : List Char) : Bool :=
  label.head? != some '-' && label.getLast? != some '-' && (label.drop 2).take 2 != ['-', '-']

def isAscii (cs : List Char) : Bool := cs.all fun c => c.toNat < 128

/-- A label in ASCII, if it is one. -/
def writeLabel (label : List Char) : Option (List Char) :=
  let text := if isAscii label then label else "xn--".toList ++ Punycode.encode label
  if label.isEmpty || 63 < text.length || !hasGoodHyphens label || !label.all isLabelPart then none
  else some text

def writeLabels : List (List Char) → Option (List Char)
  | [] => some []
  | [[]] => some []
  | [label] => writeLabel label
  | label :: rest => do return (← writeLabel label) ++ '.' :: (← writeLabels rest)

def write (name : List Char) : Option (List Char) :=
  let labels := Text.parts '.' (name.map fun c => if isDivider c then '.' else c)
  if labels = [[]] then none else writeLabels labels

end Rehearsal.Url.HostName

/-!
Numeric addresses of hosts: four octets between dots, or eight groups of hexadecimal digits
between colons.

Two colons together stand for as many zero groups as are missing, once in an address; the last
two groups may be written as four octets, and a zone may follow a percent sign.
-/

namespace Rehearsal.Url.HostAddress

/-- Whether digits write one number of a dotted address: up to 255, no zero in front. -/
def isOctet (digits : List Char) : Bool :=
  !digits.isEmpty && digits.all Char.isDigit && digits.length ≤ 3
    && (digits.length == 1 || digits.head? != some '0')
    && Nat.ofDigitChars 10 digits 0 ≤ 255

def isDotted (cs : List Char) : Bool :=
  let octets := Text.parts '.' cs
  octets.length == 4 && octets.all isOctet

def isHex (c : Char) : Bool := (Text.digitIn? 16 c).isSome

def isGroup (cs : List Char) : Bool := !cs.isEmpty && cs.length ≤ 4 && cs.all isHex

/-- A gap at the front leaves two empty parts, of which one stays; one alone is out of place. -/
def trimGap : List (List Char) → Option (List (List Char))
  | [] :: [] :: rest => some ([] :: rest)
  | [] :: _ => none
  | parts => some parts

/-- The parts with octets at the end written as two groups. -/
def asGroups (parts : List (List Char)) : Option (List (List Char)) :=
  match parts.getLast? with
  | some last =>
    if last.contains '.' then
      if isDotted last then some (parts.dropLast ++ [['0'], ['0']]) else none
    else some parts
  | none => some parts

/-- Whether parts are eight groups, or fewer and one gap. -/
def areGroups (parts : List (List Char)) : Bool :=
  let groups := parts.filter fun part => !part.isEmpty
  groups.all isGroup
    && (if groups.length = parts.length then groups.length == 8
        else groups.length + 1 == parts.length && groups.length ≤ 7)

/-- The zone after the first percent sign, and the text before it. -/
def takeZone (cs : List Char) : List Char × Option (List Char) :=
  match cs.dropWhile (· != '%') with
  | [] => (cs, none)
  | _ :: zone => (cs.takeWhile (· != '%'), some zone)

def isGrouped (cs : List Char) : Bool :=
  let (address, zone) := takeZone cs
  zone.all (fun zone => !zone.isEmpty && !zone.contains '%')
    && ((asGroups (Text.parts ':' address)).bind fun parts => do
        let parts ← trimGap parts
        let parts ← trimGap parts.reverse
        return areGroups parts).getD false

/-- Whether a text writes an address of a kind yet to come: a version, a dot, and the rest. -/
def isFuture : List Char → Bool
  | 'v' :: rest =>
    match rest.dropWhile isHex with
    | '.' :: _ :: _ => rest.head?.any isHex
    | _ => false
  | _ => false

end Rehearsal.Url.HostAddress
