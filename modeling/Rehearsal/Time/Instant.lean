import Rehearsal.Number.Binary64

/-!
Points in time and durations, both in whole microseconds.

An instant is a reading of a wall clock with the offset of that clock from universal time, when the
offset is known. Epoch milliseconds are computed in doubles: the microseconds are divided by a
million and the quotient is multiplied by a thousand, each step rounded, and the fraction dropped.
-/

/-!
The Gregorian calendar as day numbers, day 0 being the first of January 1970.
-/

namespace Rehearsal

structure CalendarDay where
  year : Int
  month : Nat
  day : Nat
  deriving DecidableEq, Repr

namespace CalendarDay

def toNumber (date : CalendarDay) : Int :=
  let year := if date.month ≤ 2 then date.year - 1 else date.year
  let era := Int.fdiv year 400
  let yearOfEra := year - era * 400
  let shifted : Int := if date.month ≤ 2 then date.month + 9 else date.month - 3
  let dayOfYear := Int.fdiv (153 * shifted + 2) 5 + date.day - 1
  let dayOfEra := yearOfEra * 365 + Int.fdiv yearOfEra 4 - Int.fdiv yearOfEra 100 + dayOfYear
  era * 146097 + dayOfEra - 719468

def ofNumber (number : Int) : CalendarDay :=
  let shifted := number + 719468
  let era := Int.fdiv shifted 146097
  let dayOfEra := shifted - era * 146097
  let yearOfEra := Int.fdiv (dayOfEra - Int.fdiv dayOfEra 1460 + Int.fdiv dayOfEra 36524
    - Int.fdiv dayOfEra 146096) 365
  let dayOfYear := dayOfEra - (365 * yearOfEra + Int.fdiv yearOfEra 4 - Int.fdiv yearOfEra 100)
  let shiftedMonth := Int.fdiv (5 * dayOfYear + 2) 153
  let day := dayOfYear - Int.fdiv (153 * shiftedMonth + 2) 5 + 1
  let month := if shiftedMonth < 10 then shiftedMonth + 3 else shiftedMonth - 9
  let year := yearOfEra + era * 400 + (if month ≤ 2 then 1 else 0)
  ⟨year, month.toNat, day.toNat⟩

def isLeap (year : Int) : Bool := year % 4 == 0 && (year % 100 != 0 || year % 400 == 0)

def daysInMonth (year : Int) (month : Nat) : Nat :=
  if month = 2 then (if isLeap year then 29 else 28)
  else if month = 4 ∨ month = 6 ∨ month = 9 ∨ month = 11 then 30
  else 31

/-- Whether a date exists and its year has at most four digits. -/
def isValid (date : CalendarDay) : Bool :=
  1 ≤ date.year && date.year ≤ 9999 && 1 ≤ date.month && date.month ≤ 12
    && 1 ≤ date.day && date.day ≤ daysInMonth date.year date.month

def padded (width : Nat) (n : Nat) : String :=
  let digits := Nat.toDigits 10 n
  String.ofList (List.replicate (width - digits.length) '0' ++ digits)

def text (date : CalendarDay) : String :=
  padded 4 date.year.toNat ++ "-" ++ padded 2 date.month ++ "-" ++ padded 2 date.day

end CalendarDay

/-! Instants and durations. -/

structure Instant where
  /-- Microseconds that the wall clock shows since the epoch. -/
  wall : Int
  /-- Seconds the wall clock is ahead of universal time, if known. -/
  offset : Option Int
  deriving DecidableEq, Repr

structure ClockFace where
  date : CalendarDay
  hour : Nat
  minute : Nat
  second : Nat
  micro : Nat
  deriving DecidableEq, Repr

namespace Instant

def microsPerDay : Int := 86400000000

def face (t : Instant) : ClockFace :=
  let day := Int.fdiv t.wall microsPerDay
  let rest := (t.wall - day * microsPerDay).toNat
  ⟨CalendarDay.ofNumber day, rest / 3600000000, rest / 60000000 % 60, rest / 1000000 % 60,
    rest % 1000000⟩

def ofFace? (face : ClockFace) (offset : Option Int) : Option Instant :=
  if face.date.isValid && face.hour < 24 && face.minute < 60 && face.second < 60
      && face.micro < 1000000 then
    let seconds : Int := (face.hour * 60 + face.minute) * 60 + face.second
    some ⟨face.date.toNumber * microsPerDay + seconds * 1000000 + face.micro, offset⟩
  else none

def ofEpochMicros (micros : Int) : Instant := ⟨micros, some 0⟩

/-- Microseconds since the epoch; a clock of unknown offset is read as universal time. -/
def epochMicros (t : Instant) : Int := t.wall - t.offset.getD 0 * 1000000

/-- Milliseconds since the epoch, computed in doubles, the fraction dropped. -/
def epochMillis (t : Instant) : Int :=
  let seconds := Binary64.ofRat false (mkRat t.epochMicros 1000000)
  ((seconds * Binary64.ofNat 1000).truncate?).getD 0

/-- The text of an offset: sign, hours, minutes, and seconds if there are any. -/
def offsetText (seconds : Int) : String :=
  let n := seconds.natAbs
  let tail := if n % 60 = 0 then "" else ":" ++ CalendarDay.padded 2 (n % 60)
  (if seconds < 0 then "-" else "+") ++ CalendarDay.padded 2 (n / 3600) ++ ":"
    ++ CalendarDay.padded 2 (n / 60 % 60) ++ tail

/-- Date and time with the given separator; microseconds only if there are any. -/
def textWith (separator : String) (t : Instant) : String :=
  let f := t.face
  let micros := if f.micro = 0 then "" else "." ++ CalendarDay.padded 6 f.micro
  f.date.text ++ separator ++ CalendarDay.padded 2 f.hour ++ ":" ++ CalendarDay.padded 2 f.minute
    ++ ":" ++ CalendarDay.padded 2 f.second ++ micros ++ (t.offset.map offsetText).getD ""

def isoText (t : Instant) : String := textWith "T" t

def spacedText (t : Instant) : String := textWith " " t

/-- Whether two instants are one moment: both offsets known and the moments alike, or both unknown
and the clock readings alike. -/
def same (a b : Instant) : Bool :=
  a.offset.isSome == b.offset.isSome && a.epochMicros == b.epochMicros

/-- Why seconds since the epoch are no instant. -/
inductive RangeFlaw where
  | notANumber
  | endless
  | beyondClock
  | beyondCalendar
  | year (year : Int)
  deriving DecidableEq, Repr

/-- The instant of a number of seconds since the epoch, rounded to microseconds. -/
def ofEpochSeconds (seconds : Binary64) : Except RangeFlaw Instant :=
  match seconds.truncate? with
  | none => .error (if seconds.isNan then .notANumber else .endless)
  | some whole =>
    let fraction := seconds - Binary64.ofInt whole
    let micros := ((fraction * Binary64.ofNat 1000000).nearestInt?).getD 0
    let (whole, micros) :=
      if 1000000 ≤ micros then (whole + 1, micros - 1000000)
      else if micros < 0 then (whole - 1, micros + 1000000)
      else (whole, micros)
    if whole < -9223372036854775808 ∨ 9223372036854775807 < whole then .error .beyondClock
    else
      let year := (CalendarDay.ofNumber (Int.fdiv whole 86400)).year
      if year < -2147481748 ∨ 2147485547 < year then .error .beyondCalendar
      else if year < 1 ∨ 9999 < year then .error (.year year)
      else .ok (ofEpochMicros (whole * 1000000 + micros))

end Instant

structure Span where
  micros : Int
  deriving DecidableEq, Repr

namespace Span

def days (s : Span) : Int := Int.fdiv s.micros Instant.microsPerDay

/-- Whole seconds beyond the days. -/
def seconds (s : Span) : Nat := ((s.micros - s.days * Instant.microsPerDay) / 1000000).toNat

/-- Microseconds beyond the seconds. -/
def microseconds (s : Span) : Nat := (s.micros - s.days * Instant.microsPerDay).toNat % 1000000

def totalSeconds (s : Span) : Binary64 := Binary64.ofRat false (mkRat s.micros 1000000)

def text (s : Span) : String :=
  let n := s.seconds
  let dayText :=
    if s.days = 0 then ""
    else toString s.days ++ (if s.days.natAbs = 1 then " day, " else " days, ")
  let tail := if s.microseconds = 0 then "" else "." ++ CalendarDay.padded 6 s.microseconds
  dayText ++ toString (n / 3600) ++ ":" ++ CalendarDay.padded 2 (n / 60 % 60) ++ ":"
    ++ CalendarDay.padded 2 (n % 60) ++ tail

end Span

end Rehearsal
