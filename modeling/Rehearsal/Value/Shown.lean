import Rehearsal.Text.Quoted
import Rehearsal.Value

/-!
Values as messages show them.

`Value.shown` is the form in which a value could be typed in: texts in quotes, times by their
parts. `Value.display` is the plain form: a text is shown bare, a time in its usual writing, and
all else as `shown`.
-/

namespace Rehearsal

def Span.shown (s : Span) : String :=
  let part (name : String) (n : Int) : List String :=
    if n = 0 then [] else [name ++ "=" ++ toString n]
  let parts := part "days" s.days ++ part "seconds" s.seconds ++ part "microseconds" s.microseconds
  "datetime.timedelta(" ++ (if parts.isEmpty then "0" else String.intercalate ", " parts) ++ ")"

def Instant.shownOffset (seconds : Int) : String :=
  if seconds = 0 then "datetime.timezone.utc"
  else "datetime.timezone(" ++ (Span.mk (seconds * 1000000)).shown ++ ")"

def Instant.shown (t : Instant) : String :=
  let f := t.face
  let clock : List Nat :=
    if f.micro ≠ 0 then [f.hour, f.minute, f.second, f.micro]
    else if f.second ≠ 0 then [f.hour, f.minute, f.second]
    else [f.hour, f.minute]
  let parts := [toString f.date.year, toString f.date.month, toString f.date.day]
    ++ clock.map toString
    ++ (t.offset.map fun seconds => "tzinfo=" ++ Instant.shownOffset seconds).toList
  "datetime.datetime(" ++ String.intercalate ", " parts ++ ")"

def CalendarDay.shown (d : CalendarDay) : String :=
  "datetime.date(" ++ toString d.year ++ ", " ++ toString d.month ++ ", " ++ toString d.day ++ ")"

def boolText (b : Bool) : String := if b then "True" else "False"

namespace Value

mutual

def shown : Value → String
  | .null => "None"
  | .bool b => boolText b
  | .int n => toString n
  | .float x => x.text
  | .decimal d => "Decimal(" ++ Text.quoted d.text ++ ")"
  | .text s => Text.quoted s
  | .bytes b => Text.quotedBytes b
  | .list items => "[" ++ String.intercalate ", " (shownItems items) ++ "]"
  | .tuple items =>
    match shownItems items with
    | [item] => "(" ++ item ++ ",)"
    | parts => "(" ++ String.intercalate ", " parts ++ ")"
  | .map entries => "\x7b" ++ String.intercalate ", " (shownEntries entries) ++ "\x7d"
  | .instant t => t.shown
  | .span s => s.shown
  | .date day => (CalendarDay.ofNumber day).shown
  | .record type fields => type ++ "(" ++ String.intercalate ", " (shownFields fields) ++ ")"
  | .status s => "<DeliveryStatus." ++ s.name ++ ": " ++ Text.quoted s.text ++ ">"
  | .object => "<object object>"

def shownItems : List Value → List String
  | [] => []
  | item :: rest => item.shown :: shownItems rest

def shownEntries : List (Value × Value) → List String
  | [] => []
  | (key, value) :: rest => (key.shown ++ ": " ++ value.shown) :: shownEntries rest

def shownFields : List (String × Value) → List String
  | [] => []
  | (name, value) :: rest => (name ++ "=" ++ value.shown) :: shownFields rest

end

def display : Value → String
  | .text s => s
  | .decimal d => d.text
  | .instant t => t.spacedText
  | .span s => s.text
  | .date day => (CalendarDay.ofNumber day).text
  | .status s => "DeliveryStatus." ++ s.name
  | value => value.shown

end Value

end Rehearsal
