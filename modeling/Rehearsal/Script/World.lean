import Rehearsal.Broker.Client
import Rehearsal.Execution.World
import Rehearsal.Http.Response
import Rehearsal.Json.Writer
import Rehearsal.Script.Auth
import Rehearsal.Script.Step
import Rehearsal.Script.Value
import Rehearsal.Settings.Reading

/-!
Worlds written as JSON: how a broker is set up and disturbed, what endpoints answer, and which
settings apply.
-/

/-!
Answers of an endpoint written as JSON: a response, a failure by its name, or none at all.
-/

namespace Rehearsal.Script

def timeouts : List String := ["ReadTimeout", "ConnectTimeout", "WriteTimeout", "PoolTimeout"]

def readBody (j : Value) : List UInt8 :=
  match read j with
  | .text s => Utf8.encode s
  | .bytes bytes => bytes
  | _ => []

/-- An answer; anything but a mapping stands for what the endpoint says by itself. -/
def answer? (j : Value) : Option Answer :=
  match j, field? j "raise" with
  | .map _, some name =>
    let why := textOf (field j "message")
    some (if timeouts.contains (textOf name) then .timedOut why else .failed why)
  | .map _, none =>
    if flagOf (field j "hang") false then some .unfinished
    else
      some (.response ⟨(readInt? (field j "status")).getD 200,
        (readNamed (field j "headers")).map fun (name, value) => (name, value.display),
        readBody (field j "body")⟩)
  | _, _ => none

/-!
Messages and reports of their delivery written as JSON.
-/

def message (m : Message) : Value :=
  object [("topic", .text m.topic), ("partition", .int m.partition), ("offset", .int m.offset),
    ("key", writeBytes m.key), ("value", writeBytes m.value),
    ("headers", messageHeaders m.headers), ("timestamp", numeral m.timestamp)]

def report (r : DeliveryReport) : Value :=
  object [("topic", .text r.topic), ("partition", .int r.partition), ("offset", .int r.offset),
    ("timestamp", numeral r.timestamp), ("status", .text r.status.text), ("key", writeBytes r.key)]

def readBytes? (j : Value) : Option (List UInt8) :=
  match read j with
  | .bytes bytes => some bytes
  | .text s => some (Utf8.encode s)
  | _ => none

def outgoing (j : Value) : Outgoing :=
  { topic := textOf (field j "topic"), key := readBytes? (field j "key")
    value := readBytes? (field j "value")
    headers := (readPairs (field j "headers")).map fun (name, value) =>
      (name.display, readBytes? (write value))
    partition := readInt? (field j "partition"), timestamp := readInt? (field j "timestamp") }

def delivery (j : Value) : DeliveryStatus :=
  ((read j).text?.bind DeliveryStatus.ofText?).getD .persisted

/-! Worlds. -/

def ofJson (value : Value) : List UInt8 :=
  Utf8.encode ((Json.text Json.Style.plain value).toOption.getD "")

/-- A body read as JSON if it is JSON, else as text; nothing if it is empty. -/
def bodyOf (content : Value) : Value :=
  let text :=
    match content with
    | .bytes bytes => Utf8.decodeLossy bytes
    | value => value.text?.getD ""
  if text = "" then .null
  else
    match Json.read .double text with
    | .ok value => value
    | .error _ => .text text

/-- The answer that repeats the method and the body of a request. -/
def echo (request : Request) : Answer :=
  .response ⟨200, [("content-type", "application/json"), ("X-Request-Id", "req-1")],
    ofJson (object [("method", .text request.method), ("body", bodyOf request.body)])⟩

def tokenGrant : Answer :=
  .response ⟨200, [], ofJson (object [("access_token", .text "tok"), ("expires_in", .int 3600)])⟩

/-- Tokens from an endpoint that answers by a script; its clock starts at 1000 seconds. -/
def tokenService (script : Value) : TokenService :=
  ⟨.empty, ⟨(itemsOf script).map answer?, fun _ => tokenGrant, []⟩, Binary64.ofNat 1000⟩

def disturbance? (j : Value) : Option Disturbance :=
  match field? j "raise", field? j "status" with
  | some text, _ => some (.raises (textOf text))
  | none, some status => some (.confirms (delivery status))
  | none, none => if (field? j "block").isSome then some .hangs else none

/-- An empty broker that confirms messages in some way; three partitions if no number is given. -/
def broker (j : Value) (now : Instant) : Broker :=
  .empty (((field? j "partitions").map fun n => (readInt n).toNat).getD 3)
    (delivery (field j "persistence")) now.epochMillis

def cluster (j : Value) (workers : Nat) (now : Instant) : Cluster :=
  let made := (itemsOf (field j "topics")).foldl (fun (b : Broker) topic =>
    b.createTopic (readText (itemAt topic 0)) (readInt (itemAt topic 1)).toNat) (broker j now)
  { broker := made
    sends := (itemsOf (field j "produce_script")).map disturbance?
    polls := (itemsOf (field j "consume_script")).map disturbance?
    delay := ((read (field j "produce_delay")).toFloat).toOption.getD (Binary64.ofNat 0)
    crew := workers }

/-- Why a certificate at a path where no file is cannot be loaded. -/
def noSuchFile : String := "[Errno 2] No such file or directory"

/-- The world of an entry: a pool of clients, which has a broker unless the entry says it is missing,
and everything the clients talk to. -/
def world (j : Value) (now : Instant) : World :=
  let setup := field j "broker"
  let brokerless := flagOf (field setup "missing") false || flagOf (field j "default_pool") false
  let unreadable := flagOf (field j "real_tls") false
  { pool := .empty (!brokerless)
    cluster := cluster setup (((readInt? (field j "max_workers")).getD 1).toNat) now
    web := ⟨(itemsOf (field j "http")).map answer?, echo, []⟩
    tokens := tokenService (field j "tokens")
    flawOf := fun _ => if unreadable then some noSuchFile else none
    now := now
    suffix := fun _ => "XXXXXXXX" }

/-- The settings of a scenario for which none are written. -/
def usualSettings : Value :=
  object [
    ("http", object [("base_url", .text "http://api.test"),
      ("default_headers", object [("User-Agent", .text "assured-tests")])]),
    ("broker", object [("bootstrap_servers", .text "broker.test:9092"),
      ("group_id", .text "tests")])]

/-- The settings of a scenario: those written or the usual ones, with the authentication that is
written beside them. -/
def settings (j : Value) : Except Fault Settings := do
  let made ← Settings.ofValue (orEmptyMap ((field? j "settings").map read)) none
  let made ←
    match field? j "http_auth" with
    | some auth => pure { made with http := { made.http with auth := ← httpAuth? auth } }
    | none => pure made
  match field? j "broker_auth" with
  | some auth => return { made with broker := { made.broker with auth := ← brokerAuth? auth } }
  | none => return made
where
  orEmptyMap : Option Value → Value
    | none => usualSettings
    | some .null => .map []
    | some value => value

def sent (r : Request) : Value :=
  object [("method", .text r.method), ("url", .text r.url), ("headers", writeNamed r.headers),
    ("params", writeNamed r.params), ("body", write r.body), ("timeout", seconds r.timeout),
    ("client_cert", certificate r.certificate)]

def tokenRequest (r : TokenRequest) : Value :=
  object [("method", .text r.method), ("url", .text r.url), ("accept", .text r.accept),
    ("form", writeNamed (r.form.map fun (name, s) => (name, .text s)))]

end Rehearsal.Script
