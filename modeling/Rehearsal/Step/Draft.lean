import Rehearsal.Auth.Broker
import Rehearsal.Broker.Message
import Rehearsal.Step.Tuning
import Rehearsal.Value.Float

/-!
Descriptions of steps as they are given, before they are checked.

There is one draft for each kind of step. What a caller may write in several ways is still a value
here: a timeout, a topic, an offset reset, the headers of a message.
-/

namespace Rehearsal

structure HttpDraft where
  url : Value := .text ""
  method : String := "GET"
  body : Value := .null
  headers : Headers := []
  queryParams : Headers := []
  timeout : Value := .float (Binary64.ofNat 30)
  auth : Option HttpAuthConfig := none
  deriving Repr, Inhabited

structure ProduceDraft where
  topic : Value := .text ""
  value : Value := .null
  key : Value := .null
  headers : List (Value × Value) := []
  partition : Option Int := none
  timestamp : Option Instant := none
  timeout : Value := .float (Binary64.ofNat 30)
  tuning : ProducerTuning := .plain
  bootstrapServers : Option String := none
  auth : Option BrokerAuthConfig := none
  jsonOptions : List (String × Value) := []
  deriving Repr, Inhabited

structure ConsumeDraft where
  topic : Value := .text ""
  groupId : Option String := none
  timeout : Value := .float (Binary64.ofNat 30)
  expectedType : Option Kind := none
  autoOffsetReset : Value := .text "earliest"
  bootstrapServers : Option String := none
  auth : Option BrokerAuthConfig := none
  deriving Repr, Inhabited

structure BatchProduceDraft where
  topic : Value := .text ""
  messages : List (Value × Value) := []
  headers : List (Value × Value) := []
  timeout : Value := .float (Binary64.ofNat 60)
  tuning : ProducerTuning := .plain
  bootstrapServers : Option String := none
  auth : Option BrokerAuthConfig := none
  jsonOptions : List (String × Value) := []
  deriving Repr, Inhabited

structure BatchConsumeDraft where
  topic : Value := .text ""
  messageCount : Int := 1
  groupId : Option String := none
  timeout : Value := .float (Binary64.ofNat 60)
  expectedType : Option Kind := none
  autoOffsetReset : Value := .text "earliest"
  bootstrapServers : Option String := none
  auth : Option BrokerAuthConfig := none
  deriving Repr, Inhabited

namespace Draft

def seconds (owner : String) (timeout : Value) : Except Fault Binary64 :=
  match timeout with
  | .null => .error (.configuration (.timeoutNotPositive owner timeout.shown))
  | timeout =>
    match timeout.number? with
    | none =>
      .error (.wrongType ("'<=' not supported between instances of '" ++ timeout.qualifiedTypeName
        ++ "' and 'int'"))
    | some n =>
      match n.compare? (.ofInt 0) with
      | some .lt => .error (.configuration (.timeoutNotPositive owner timeout.shown))
      | some .eq => .error (.configuration (.timeoutNotPositive owner timeout.shown))
      | _ => timeout.toFloat

def topicName (owner : String) (topic : Value) : Except Fault String :=
  if !topic.truthy || Text.isBlankText topic.display then
    .error (.configuration (.noTopicIn owner))
  else .ok topic.display

def byteOf (value : Value) : Except Fault UInt8 :=
  let given : Except Fault Int :=
    match value with
    | .int n => .ok n
    | .bool b => .ok (if b then 1 else 0)
    | value =>
      .error (.wrongType ("'" ++ value.qualifiedTypeName
        ++ "' object cannot be interpreted as an integer"))
  match given with
  | .error fault => .error fault
  | .ok n =>
    if 0 ≤ n ∧ n < 256 then .ok n.toNat.toUInt8
    else .error (.badValue "bytes must be in range(0, 256)")

/-- As many zero bytes as a number says. -/
def zeroBytes (n : Int) : Except Fault (List UInt8) :=
  if n < 0 then .error (.badValue "negative count") else .ok (List.replicate n.toNat 0)

/-- The bytes of a header value: a text in UTF-8, a list of bytes, or a count of zero bytes. -/
def headerBytes (value : Value) : Except Fault (Option (List UInt8)) :=
  match value with
  | .null => .ok none
  | .text s => .ok (some (Utf8.encode s))
  | .status s => .ok (some (Utf8.encode s.text))
  | .bytes bytes => .ok (some bytes)
  | .int n => (zeroBytes n).map some
  | .bool b => (zeroBytes (if b then 1 else 0)).map some
  | .list items => (items.mapM byteOf).map some
  | .tuple items => (items.mapM byteOf).map some
  | .map entries => (entries.mapM fun entry => byteOf entry.1).map some
  | value =>
    .error (.wrongType ("cannot convert '" ++ value.qualifiedTypeName ++ "' object to bytes"))

def messageHeaders (entries : List (Value × Value)) : Except Fault MessageHeaders :=
  entries.mapM fun (name, value) => (headerBytes value).map (name.display, ·)

end Draft

end Rehearsal
