import Rehearsal.Document
import Rehearsal.Value.Float

/-!
Reading values as a requested type.

Numbers convert into each other where nothing is lost but a double's precision, and texts that are
numerals convert into numbers. Truth values are never numbers, and null is of no type.
-/

namespace Rehearsal

def Decimal.ofText? (s : String) : Option Decimal :=
  (Numeral.read (Text.trimBlank s.toList)).bind Numeral.toDecimal?

namespace Value

/-- The integer that a value writes exactly, if it does. -/
def asInt? : Value → Option Int
  | .int n => some n
  | .decimal d => d.toInt?
  | .float x => (Decimal.ofShortest x).toInt?
  | .text s => (Decimal.ofText? s).bind Decimal.toInt?
  | _ => none

def asDecimal? : Value → Option Decimal
  | .int n => some (.ofInt n)
  | .decimal d => some d
  | .float x => some (.ofShortest x)
  | .text s => Decimal.ofText? s
  | _ => none

/-- A value read as a type; `path` says where it was found. -/
def coerce (value : Value) (kind : Kind) (path : String) : Except Fault Value :=
  let mismatch : Except Fault Value := .error (.typeMismatch path kind value)
  match kind with
  | .anything => .ok value
  | .int => (value.asInt?.map fun n => .ok (.int n)).getD mismatch
  | .decimal => (value.asDecimal?.map fun d => .ok (.decimal d)).getD mismatch
  | .float =>
    match value with
    | .int n => (Binary64.ofIntChecked n).map .float
    | .float x => .ok (.float x)
    | .decimal d => .ok (.float d.toBinary64)
    | .text s => ((Decimal.ofText? s).map fun d => .ok (.float d.toBinary64)).getD mismatch
    | _ => mismatch
  | .bool =>
    match value with
    | .bool _ => .ok value
    | _ => mismatch
  | .list => (value.items?.map fun items => .ok (.list items)).getD mismatch
  | kind => if value.isA kind then .ok value else mismatch

end Value

def Document.evaluateAs (document : Value) (path : Path) (kind : Kind) : Except Fault Value :=
  match evaluate document path with
  | .error fault => .error fault
  | .ok value => value.coerce kind path.text

end Rehearsal
