import Rehearsal.Json.Writer

/-!
Values as messages show them, where an integer may be too long to be written.
-/

namespace Rehearsal.Value

mutual

/-- Whether an integer in a value is too long to be written. -/
def holdsLong : Value → Bool
  | .int n => Json.integerDigitLimit < (Nat.toDigits 10 n.natAbs).length
  | .list items => holdsLongItem items
  | .tuple items => holdsLongItem items
  | .map entries => holdsLongEntry entries
  | .record _ fields => holdsLongField fields
  | _ => false

def holdsLongItem : List Value → Bool
  | [] => false
  | item :: rest => item.holdsLong || holdsLongItem rest

def holdsLongEntry : List (Value × Value) → Bool
  | [] => false
  | (key, value) :: rest => key.holdsLong || value.holdsLong || holdsLongEntry rest

def holdsLongField : List (String × Value) → Bool
  | [] => false
  | (_, value) :: rest => value.holdsLong || holdsLongField rest

end

def displayChecked (value : Value) : Except Fault String :=
  if value.holdsLong then .error Json.tooLong else .ok value.display

def shownChecked (value : Value) : Except Fault String :=
  if value.holdsLong then .error Json.tooLong else .ok value.shown

end Rehearsal.Value
