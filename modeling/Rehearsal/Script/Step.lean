import Rehearsal.Script.Auth
import Rehearsal.Step.Change

/-!
Steps written as JSON: the kind of step and its fields.
-/

namespace Rehearsal.Script

def tuningShape : RecordShape :=
  ⟨"ProducerTuning", [],
    ["compression", "acks", "batch_size", "linger_ms", "retries", "enable_idempotence"]⟩

def tuning? (j : Value) : Except Fault ProducerTuning := do
  let made ← block tuningShape (fun (given : AuthReading.Given) =>
    let get (name : String) : Value := given.get name .null
    ProducerTuning.mk (get "compression") (get "acks") (get "batch_size") (get "linger_ms")
      (get "retries") (get "enable_idempotence")) j
  (made.getD ProducerTuning.plain).check

def readInstant? (j : Value) : Option Instant :=
  match read j with
  | .instant t => some t
  | _ => none

def change (variant : Variant) (name : String) (j : Value) : Except Fault StepChange := do
  let value := read j
  match name with
  | "url" => return .url value
  | "method" => return .method value.display
  | "body" => return .body value
  | "headers" => return .headers (readPairs j)
  | "query_params" => return .queryParams (readPairs j)
  | "timeout" => return .timeout value
  | "auth" =>
    if variant = .http then return .httpAuth (← httpAuth? (field j "$http_auth"))
    else return .brokerAuth (← brokerAuth? (field j "$broker_auth"))
  | "topic" => return .topic value
  | "value" => return .value value
  | "key" => return .key value
  | "partition" => return .partition (readInt? j)
  | "timestamp" => return .timestamp (readInstant? j)
  | "tuning" => return .tuning (← tuning? (field j "$tuning"))
  | "bootstrap_servers" => return .bootstrapServers value.text?
  | "json_options" => return .jsonOptions (readFields j)
  | "messages" => return .messages (readPairs j)
  | "message_count" => return .messageCount (readInt j)
  | "group_id" => return .groupId value.text?
  | "expected_type" => return .expectedType (readKind? j)
  | "auto_offset_reset" => return .autoOffsetReset value
  | name => return .other name

def changes (variant : Variant) (j : Value) : Except Fault (List StepChange) :=
  (entriesOf j).mapM fun (name, value) => change variant name value

def messageHeaders (headers : MessageHeaders) : Value :=
  writeNamed (headers.map fun (name, bytes) => (name, .ofOption .bytes bytes))

def tuning (t : ProducerTuning) : Value :=
  object [("config", writeObject t.config), ("is_default", .bool t.isDefault)]

def kind (kind : Option Kind) : Value :=
  .ofOption (fun (k : Kind) => tagged "$type" (.text k.name)) kind

def stepFields : Step → List (String × Value)
  | .http s =>
    [("url", .text s.url), ("method", .text s.method), ("body", write s.body),
      ("headers", writeNamed s.headers), ("query_params", writeNamed s.queryParams),
      ("timeout", seconds s.timeout), ("auth", httpAuth s.auth)]
  | .produce s =>
    [("topic", .text s.topic), ("value", write s.value), ("key", write s.key),
      ("headers", messageHeaders s.headers), ("partition", write (.ofOption .int s.partition)),
      ("timestamp", write (.ofOption .instant s.timestamp)), ("timeout", seconds s.timeout),
      ("tuning", tuning s.tuning), ("bootstrap_servers", optional s.bootstrapServers),
      ("auth", brokerAuth s.auth), ("json_options", writeObject s.jsonOptions)]
  | .consume s =>
    [("topic", .text s.topic), ("group_id", optional s.groupId), ("timeout", seconds s.timeout),
      ("expected_type", kind s.expectedType), ("auto_offset_reset", .text s.autoOffsetReset.text),
      ("bootstrap_servers", optional s.bootstrapServers), ("auth", brokerAuth s.auth)]
  | .batchProduce s =>
    [("topic", .text s.topic),
      ("messages", .list (s.messages.map fun (key, value) => .list [write key, write value])),
      ("headers", messageHeaders s.headers), ("timeout", seconds s.timeout),
      ("tuning", tuning s.tuning), ("bootstrap_servers", optional s.bootstrapServers),
      ("auth", brokerAuth s.auth), ("json_options", writeObject s.jsonOptions)]
  | .batchConsume s =>
    [("topic", .text s.topic), ("message_count", numeral s.messageCount),
      ("group_id", optional s.groupId), ("timeout", seconds s.timeout),
      ("expected_type", kind s.expectedType), ("auto_offset_reset", .text s.autoOffsetReset.text),
      ("bootstrap_servers", optional s.bootstrapServers), ("auth", brokerAuth s.auth)]

/-- The fields of a step with the name of its kind. -/
def stepView (step : Step) : List (String × Value) :=
  ("variant", .text step.variant.name) :: stepFields step

def step (step : Option Step) : Value := .ofOption (fun s => object (stepView s)) step

end Rehearsal.Script
