import Rehearsal.Fault
import Rehearsal.Text.Basic
import Rehearsal.Yaml.Cursor

/-!
Timestamps: a date, or a date and a time of day that may name a zone.
-/

namespace Rehearsal.Yaml

structure TimeOfDay where
  hour : Nat
  minute : Nat
  second : Nat
  micro : Nat
  /-- Seconds ahead of universal time, if a zone is named. -/
  zone : Option Int
  deriving DecidableEq, Repr, Inhabited

/-- A timestamp as it is written; the numbers need not make sense. -/
structure Timestamp where
  year : Nat
  month : Nat
  day : Nat
  time : Option TimeOfDay
  deriving DecidableEq, Repr, Inhabited

namespace Timestamp

def digits (least most : Nat) (cs : List Char) : Option (Nat × List Char) :=
  let taken := (cs.take most).takeWhile Char.isDigit
  if taken.length < least then none else some (Text.digitsValue taken, cs.drop taken.length)

def mark (c : Char) : List Char → Option (List Char)
  | [] => none
  | first :: rest => if first = c then some rest else none

def fraction : List Char → Nat × List Char
  | '.' :: rest =>
    let taken := rest.takeWhile Char.isDigit
    let six := taken.take 6
    (Text.digitsValue (six ++ List.replicate (6 - six.length) '0'), rest.drop taken.length)
  | cs => (0, cs)

/-- The offset of a zone with a sign, the rest of the text. -/
def offset (negative : Bool) (cs : List Char) : Option Int := do
  let (hours, cs) ← digits 1 2 cs
  let minutes ←
    match cs with
    | [] => some 0
    | cs => do
      let (minutes, cs) ← digits 2 2 (← mark ':' cs)
      if cs.isEmpty then some minutes else none
  let seconds : Int := (hours * 60 + minutes : Nat) * 60
  return if negative then -seconds else seconds

/-- The zone that the rest of a text names. -/
def zone (cs : List Char) : Option (Option Int) :=
  if cs.isEmpty then some none
  else
    match cs.dropWhile isSpaceOrTab with
    | ['Z'] => some (some 0)
    | '+' :: rest => (offset false rest).map some
    | '-' :: rest => (offset true rest).map some
    | _ => none

def timeOfDay (cs : List Char) : Option TimeOfDay := do
  let (hour, cs) ← digits 1 2 cs
  let (minute, cs) ← digits 2 2 (← mark ':' cs)
  let (second, cs) ← digits 2 2 (← mark ':' cs)
  let (micro, cs) := fraction cs
  return ⟨hour, minute, second, micro, ← zone cs⟩

def read? (cs : List Char) : Option Timestamp := do
  let (year, cs) ← digits 4 4 cs
  let (month, cs) ← digits 1 2 (← mark '-' cs)
  let (day, cs) ← digits 1 2 (← mark '-' cs)
  match cs with
  | [] => return ⟨year, month, day, none⟩
  | c :: rest =>
    if c = 'T' ∨ c = 't' then return ⟨year, month, day, some (← timeOfDay rest)⟩
    else if isSpaceOrTab c then
      return ⟨year, month, day, some (← timeOfDay (rest.dropWhile isSpaceOrTab))⟩
    else none

def isPlain (cs : List Char) : Bool :=
  match read? cs with
  | some t => t.time.isSome || cs.length == 10
  | none => false

def dateFlaw? (date : CalendarDay) : Option String :=
  if date.year < 1 then some ("year " ++ toString date.year ++ " is out of range")
  else if date.month < 1 ∨ 12 < date.month then some "month must be in 1..12"
  else if date.isValid then none
  else some "day is out of range for month"

def timeFlaw? (t : TimeOfDay) : Option String :=
  if 24 ≤ t.hour then some "hour must be in 0..23"
  else if 60 ≤ t.minute then some "minute must be in 0..59"
  else if 60 ≤ t.second then some "second must be in 0..59"
  else none

def zoneFlaw? (zone : Option Int) : Option String :=
  zone.bind fun seconds =>
    if seconds.natAbs < 86400 then none
    else
      some ("offset must be a timedelta strictly between -timedelta(hours=24) and "
        ++ "timedelta(hours=24), not " ++ (Value.span ⟨seconds * 1000000⟩).shown ++ ".")

def refuse : Option String → Except Fault Unit
  | some why => .error (.badValue why)
  | none => .ok ()

def value (t : Timestamp) : Except Fault Value := do
  let date : CalendarDay := ⟨t.year, t.month, t.day⟩
  match t.time with
  | none =>
    refuse (dateFlaw? date)
    return .date date.toNumber
  | some time =>
    refuse (zoneFlaw? time.zone)
    refuse (dateFlaw? date)
    refuse (timeFlaw? time)
    let face : ClockFace := ⟨date, time.hour, time.minute, time.second, time.micro⟩
    match Instant.ofFace? face time.zone with
    | some instant => return .instant instant
    | none => return .null

end Timestamp

end Rehearsal.Yaml
