import Rehearsal.Fault
import Rehearsal.Number.Numeral

/-!
Values read as doubles, as timeouts and lifetimes are.
-/

namespace Rehearsal

def Binary64.ofIntChecked (n : Int) : Except Fault Binary64 :=
  match Binary64.ofInt n with
  | .infinity _ => .error (.raised .overflow "int too large to convert to float")
  | x => .ok x

/-- The double that a text writes. -/
def Binary64.ofTextChecked (shown text : String) : Except Fault Binary64 :=
  match Numeral.readBinary64? text with
  | some x => .ok x
  | none => .error (.badValue ("could not convert string to float: " ++ shown))

def Value.toFloat (value : Value) : Except Fault Binary64 :=
  match value with
  | .bool b => .ok (Binary64.ofNat (if b then 1 else 0))
  | .int n => Binary64.ofIntChecked n
  | .float x => .ok x
  | .decimal d => .ok d.toBinary64
  | .text s => Binary64.ofTextChecked value.shown s
  | .status s => Binary64.ofTextChecked value.shown s.text
  | .bytes b =>
    Binary64.ofTextChecked value.shown (String.ofList (b.map fun byte => Char.ofNat byte.toNat))
  | value =>
    .error (.wrongType ("float() argument must be a string or a real number, not '"
      ++ value.qualifiedTypeName ++ "'"))

end Rehearsal
