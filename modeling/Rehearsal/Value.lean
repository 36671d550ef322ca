import Rehearsal.Broker.Message
import Rehearsal.Number.Decimal
import Rehearsal.Time.Instant

/-!
Values that steps send, payloads hold and assertions compare.

A document is a tree of mappings, lists and scalars; beside these a value may be a record with
named fields, bytes, a time, or an object nobody can look into. A mapping keeps its entries in the
order of insertion.
-/

namespace Rehearsal

inductive Value where
  | null
  | bool (b : Bool)
  | int (n : Int)
  | float (x : Binary64)
  | decimal (d : Decimal)
  | text (s : String)
  | bytes (b : List UInt8)
  | list (items : List Value)
  | tuple (items : List Value)
  | map (entries : List (Value × Value))
  | instant (t : Instant)
  | span (s : Span)
  | date (day : Int)
  | record (type : String) (fields : List (String × Value))
  | status (s : DeliveryStatus)
  | object
  deriving Repr, Inhabited

inductive Kind where
  | anything
  | text
  | int
  | float
  | bool
  | map
  | list
  | bytes
  | tuple
  | decimal
  | record (name : String) (fields : List String)
  deriving DecidableEq, Repr, Inhabited

def Kind.name : Kind → String
  | .anything => "object"
  | .text => "str"
  | .int => "int"
  | .float => "float"
  | .bool => "bool"
  | .map => "dict"
  | .list => "list"
  | .bytes => "bytes"
  | .tuple => "tuple"
  | .decimal => "Decimal"
  | .record name _ => name

namespace Value

def typeName : Value → String
  | .null => "NoneType"
  | .bool _ => "bool"
  | .int _ => "int"
  | .float _ => "float"
  | .decimal _ => "Decimal"
  | .text _ => "str"
  | .bytes _ => "bytes"
  | .list _ => "list"
  | .tuple _ => "tuple"
  | .map _ => "dict"
  | .instant _ => "datetime"
  | .span _ => "timedelta"
  | .date _ => "date"
  | .record type _ => type
  | .status _ => "DeliveryStatus"
  | .object => "object"

def qualifiedTypeName : Value → String
  | .decimal _ => "decimal.Decimal"
  | .instant _ => "datetime.datetime"
  | .span _ => "datetime.timedelta"
  | .date _ => "datetime.date"
  | value => value.typeName

/-- Whether a value has a type; a truth value also counts as an integer, and a delivery status as
a text. -/
def isA : Value → Kind → Bool
  | _, .anything => true
  | .bool _, .bool => true
  | .bool _, .int => true
  | .int _, .int => true
  | .float _, .float => true
  | .decimal _, .decimal => true
  | .text _, .text => true
  | .status _, .text => true
  | .bytes _, .bytes => true
  | .list _, .list => true
  | .tuple _, .tuple => true
  | .map _, .map => true
  | .record type _, .record name _ => type == name
  | _, _ => false

/-- Whether a value counts as present: not null, false, zero or empty. -/
def truthy : Value → Bool
  | .null => false
  | .bool b => b
  | .int n => n != 0
  | .float x => !x.isZero
  | .decimal d => !d.isZero
  | .text s => s != ""
  | .bytes b => !b.isEmpty
  | .list items => !items.isEmpty
  | .tuple items => !items.isEmpty
  | .map entries => !entries.isEmpty
  | .span s => s.micros != 0
  | _ => true

/-- The exact number a value is, truth values counting as 0 and 1. -/
def number? : Value → Option Decimal
  | .bool b => some (.ofInt (if b then 1 else 0))
  | .int n => some (.ofInt n)
  | .float x => some (.ofBinary64 x)
  | .decimal d => some d
  | _ => none

def text? : Value → Option String
  | .text s => some s
  | .status s => some s.text
  | _ => none

def ofOption {α : Type} (f : α → Value) : Option α → Value
  | none => .null
  | some a => f a

def ofFields (fields : List (String × Value)) : Value :=
  .map (fields.map fun (name, value) => (.text name, value))

def fieldIn? (name : String) : List (Value × Value) → Option Value
  | [] => none
  | (key, value) :: rest => if key.text? == some name then some value else fieldIn? name rest

end Value

end Rehearsal
