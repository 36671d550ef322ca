import Rehearsal.Document.Coerce
import Rehearsal.Json.Reader
import Rehearsal.Keyed
import Rehearsal.Number.Numeral
import Rehearsal.Path
import Rehearsal.Record
import Rehearsal.Text.Basic
import Rehearsal.Text.Utf8
import Rehearsal.Value.Same

/-!
Values written as JSON.

Null, truth values, texts, lists and mappings with text keys stand for themselves, and so do
integers. Every other value is a mapping with one entry whose key begins with a dollar sign and names
the type. `read` and `write` go from one form to the other.
-/

namespace Rehearsal.Script

def field? (j : Value) (name : String) : Option Value :=
  match j with
  | .map entries => Value.fieldIn? name entries
  | _ => none

def field (j : Value) (name : String) : Value := (field? j name).getD .null

def textOf (j : Value) : String := j.text?.getD ""

def itemsOf (j : Value) : List Value := j.items?.getD []

def itemAt (j : Value) (i : Nat) : Value := ((itemsOf j)[i]?).getD .null

def entriesOf (j : Value) : List (String × Value) :=
  match j with
  | .map entries => entries.filterMap fun (key, value) => key.text?.map (·, value)
  | _ => []

def flagOf (j : Value) (default : Bool) : Bool :=
  match j with
  | .bool b => b
  | _ => default

def shapes : List RecordShape :=
  [⟨"Order", ["id", "amount"], []⟩, ⟨"Address", ["city"], []⟩,
    ⟨"Customer", ["name", "addresses"], []⟩]

def kind? (name : String) : Option Kind :=
  match name with
  | "object" => some .anything
  | "str" => some .text
  | "int" => some .int
  | "float" => some .float
  | "bool" => some .bool
  | "dict" => some .map
  | "list" => some .list
  | "bytes" => some .bytes
  | "tuple" => some .tuple
  | "Decimal" => some .decimal
  | _ => (shapes.find? (·.name == name)).map fun shape => .record shape.name shape.fields

def hexBytes : List Char → List UInt8
  | a :: b :: rest =>
    (((Json.hexValue? a).getD 0) * 16 + (Json.hexValue? b).getD 0).toUInt8 :: hexBytes rest
  | _ => []

/-- The offset from universal time, in seconds. -/
def offset? : List Char → Option Int
  | [] => none
  | ['Z'] => some 0
  | sign :: rest =>
    let parts := (Text.parts ':' rest).map Text.digitsValue
    let seconds : Int := parts.getD 0 0 * 3600 + parts.getD 1 0 * 60 + parts.getD 2 0
    some (if sign = '-' then -seconds else seconds)

def instant? (s : String) : Option Instant :=
  let cs := s.toList
  let number (a b : Nat) : Nat := Text.digitsValue ((cs.drop a).take (b - a))
  let (micro, rest) : Nat × List Char :=
    match cs.drop 19 with
    | '.' :: rest =>
      let run := rest.takeWhile Char.isDigit
      (Text.digitsValue (run ++ List.replicate (6 - run.length) '0'), rest.dropWhile Char.isDigit)
    | rest => (0, rest)
  Instant.ofFace?
    ⟨⟨number 0 4, number 5 7, number 8 10⟩, number 11 13, number 14 16, number 17 19, micro⟩
    (offset? rest)

def decimalOf (s : String) : Decimal :=
  let (negative, rest) := Numeral.takeSign s.toList
  if rest = "NaN".toList then .nan
  else if rest = "Infinity".toList then .infinity negative
  else (Decimal.ofText? s).getD .nan

/-- A compiled path as the record it is. -/
def pathRecord (path : Path) : Value :=
  .record "JsonPathExpression" [("segments", .tuple (path.segments.map fun
    | .field name => .record "FieldSegment" [("name", .text name)]
    | .index n => .record "IndexSegment" [("index", .int n)]))]

def recordOf (type : String) (fields : List (String × Value)) : Value :=
  match shapes.find? (·.name == type) with
  | some shape =>
    .record type (shape.fields.map fun name => (name, (Keyed.get? fields name).getD .null))
  | none => .record type fields

/-- The value that a tag makes of its content. -/
def interpret (tag : String) (content : Value) : Value :=
  match tag, content with
  | "$int", .text s => .int ((Numeral.readInt? s.toList).getD 0)
  | "$float", .text s => .float ((Numeral.readBinary64? s).getD .nan)
  | "$decimal", .text s => .decimal (decimalOf s)
  | "$bytes", .text s => .bytes (hexBytes s.toList)
  | "$tuple", .list items => .tuple items
  | "$dict", .list pairs => Value.mapOf (pairs.map fun pair => (itemAt pair 0, itemAt pair 1))
  | "$datetime", .text s => ((instant? s).map .instant).getD .null
  | "$timedelta", .int n => .span ⟨n⟩
  | "$record", record => recordOf (textOf (field record "type")) (entriesOf (field record "fields"))
  | "$object", _ => .object
  | "$status", .text s => ((DeliveryStatus.ofText? s).map .status).getD .null
  | "$path", .text s =>
    match Path.compile s with
    | .ok path => pathRecord path
    | .error _ => .null
  | tag, content => .map [(.text tag, content)]

mutual

def read : Value → Value
  | .list items => .list (readItems items)
  | .map entries =>
    match readEntries entries with
    | [(.text tag, content)] => interpret tag content
    | entries => .map entries
  | value => value

def readItems : List Value → List Value
  | [] => []
  | item :: rest => read item :: readItems rest

def readEntries : List (Value × Value) → List (Value × Value)
  | [] => []
  | (key, value) :: rest => (key, read value) :: readEntries rest

end

def readFields (j : Value) : List (String × Value) :=
  (entriesOf j).map fun (name, value) => (name, read value)

/-- Pairs given as the entries of a mapping or as a list of pairs. -/
def readPairs (j : Value) : List (Value × Value) :=
  match j with
  | .map entries => entries.map fun (key, value) => (key, read value)
  | j => (itemsOf j).map fun pair => (read (itemAt pair 0), read (itemAt pair 1))

def readNamed (j : Value) : List (String × Value) :=
  (readPairs j).map fun (name, value) => (name.display, value)

def readInt? (j : Value) : Option Int :=
  match read j with
  | .int n => some n
  | .bool b => some (if b then 1 else 0)
  | _ => none

def readInt (j : Value) : Int := (readInt? j).getD 0

def readText (j : Value) : String := (read j).display

def readKind? (j : Value) : Option Kind := (field? j "$type").bind fun name => kind? (textOf name)

def readPath (j : Value) : Except Fault Path :=
  match field? j "$path" with
  | some text => Path.compile (textOf text)
  | none => Path.ofValue (read j)

/-- Arguments in the order of their parameters: those given by position, then those given by name
up to the first that is not given. -/
def placed (parameters : List String) (args : List Value) (named : List (String × Value)) :
    List Value :=
  args ++ (((parameters.drop args.length).map (Keyed.get? named)).takeWhile Option.isSome).flatMap
    Option.toList

def object (fields : List (String × Value)) : Value := .ofFields fields

def tagged (tag : String) (content : Value) : Value := object [(tag, content)]

mutual

def write : Value → Value
  | .int n => if n.natAbs < power 2 53 then .int n else tagged "$int" (.text (toString n))
  | .float x => tagged "$float" (.text x.text)
  | .decimal d => tagged "$decimal" (.text d.text)
  | .bytes b => tagged "$bytes" (.text (String.join (b.map Utf8.hexByte)))
  | .list items => .list (writeItems items)
  | .tuple items => .list (writeItems items)
  | .map entries =>
    if entries.all fun entry => entry.1.text?.isSome then .map (writeEntries entries)
    else tagged "$dict" (.list (writePairs entries))
  | .instant t => tagged "$datetime" (.text t.isoText)
  | .span s => tagged "$timedelta" (.int s.micros)
  | .record type fields =>
    tagged "$record" (object [("type", .text type), ("fields", object (writeFields fields))])
  | .status s => .text s.text
  | .object => tagged "$object" (.bool true)
  | .null => .null
  | .bool b => .bool b
  | .text s => .text s
  | .date day => .date day

def writeItems : List Value → List Value
  | [] => []
  | item :: rest => write item :: writeItems rest

def writeEntries : List (Value × Value) → List (Value × Value)
  | [] => []
  | (key, value) :: rest => (key, write value) :: writeEntries rest

def writePairs : List (Value × Value) → List Value
  | [] => []
  | (key, value) :: rest => .list [write key, write value] :: writePairs rest

def writeFields : List (String × Value) → List (String × Value)
  | [] => []
  | (name, value) :: rest => (name, write value) :: writeFields rest

end

def optional (s : Option String) : Value := .ofOption .text s

def texts (s : List String) : Value := .list (s.map .text)

def numeral (n : Int) : Value := write (.int n)

def seconds (x : Binary64) : Value := write (.float x)

def writeObject (fields : List (String × Value)) : Value := object (writeFields fields)

def writeNamed (pairs : List (String × Value)) : Value :=
  .list (pairs.map fun (name, value) => .list [.text name, write value])

def writeBytes (bytes : Option (List UInt8)) : Value := write (.ofOption .bytes bytes)

end Rehearsal.Script
