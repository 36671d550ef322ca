import Rehearsal.Document
import Rehearsal.Json.Writer
import Rehearsal.Record

/-!
Values as message bytes and back.

Texts and bytes travel as they are, everything else as JSON; null is no value at all. Reading asks
for a type: none or text gives the text, bytes the bytes, and any other type the JSON value, which
must be of that type. A record type is built from the fields of a JSON object.
-/

namespace Rehearsal.Codec

def jsonText (value : Value) (style : Json.Style) : Except Fault String :=
  let tree := value.opened
  Json.text style tree

def encode (value : Value) (style : Json.Style) : Except Fault (Option (List UInt8)) :=
  match value with
  | .null => .ok none
  | .bytes bytes => .ok (some bytes)
  | .text s => .ok (some (Utf8.encode s))
  | .status s => .ok (some (Utf8.encode s.text))
  | value => (jsonText value style).map fun s => some (Utf8.encode s)

def encodeWith (value : Value) (options : List (String × Value)) :
    Except Fault (Option (List UInt8)) :=
  match value with
  | .null => .ok none
  | .bytes bytes => .ok (some bytes)
  | .text s => .ok (some (Utf8.encode s))
  | .status s => .ok (some (Utf8.encode s.text))
  | value => do encode value (← Json.Style.ofOptions options)

def decodeText (bytes : List UInt8) : Except Fault String :=
  match Utf8.decode bytes with
  | .ok s => .ok s
  | .error e => .error (.raised .utf8Text e.message)

/-- Reads JSON text with numbers as integers and doubles. -/
def readJson (text : String) : Except Fault Value :=
  match Json.read .double text with
  | .ok value => .ok value
  | .error e =>
    match e.flaw with
    | .longInteger _ => .error (.badValue e.message)
    | _ => .error (.raised .jsonText e.message)

def expect (data : Value) : Kind → Except Fault Value
  | .record name fields => RecordShape.build ⟨name, fields, []⟩ data
  | kind =>
    if data.isA kind then .ok data
    else .error (.wrongType ("expected " ++ kind.name ++ ", got " ++ data.typeName))

/-- The value that message bytes carry, read as the expected type. -/
def decode (raw : Option (List UInt8)) (expected : Option Kind) : Except Fault Value :=
  match raw with
  | none => .ok .null
  | some bytes =>
    match expected with
    | some .bytes => .ok (.bytes bytes)
    | none => (decodeText bytes).map .text
    | some .text => (decodeText bytes).map .text
    | some kind =>
      match decodeText bytes with
      | .error fault => .error fault
      | .ok text =>
        match readJson text with
        | .error fault => .error fault
        | .ok data => expect data kind

/-- A message key as text, whatever its bytes. -/
def decodeKey (key : Option (List UInt8)) : Value :=
  match key with
  | none => .null
  | some bytes => .text (Utf8.decodeLossy bytes)

end Rehearsal.Codec
