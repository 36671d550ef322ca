import Rehearsal.Broker
import Rehearsal.Step.Draft

/-!
Steps of a scenario: a request, or a message or a batch of messages to send or to receive.

A step is built from a draft, which checks and normalises every field at once; a changed copy of a
step is built from the changed draft of it. So a step that exists has passed every check.
-/

namespace Rehearsal

def OffsetReset.ofValue (value : Value) : Except Fault OffsetReset :=
  match value.text? with
  | some "earliest" => .ok .earliest
  | some "latest" => .ok .latest
  | _ => .error (.configuration (.unknownReset value.shown))

structure HttpStep where
  url : String
  method : String
  body : Value
  headers : Headers
  queryParams : Headers
  timeout : Binary64
  auth : Option HttpAuthConfig
  deriving Repr, Inhabited

structure ProduceStep where
  topic : String
  value : Value
  key : Value
  headers : MessageHeaders
  partition : Option Int
  timestamp : Option Instant
  timeout : Binary64
  tuning : ProducerTuning
  bootstrapServers : Option String
  auth : Option BrokerAuthConfig
  jsonOptions : List (String × Value)
  deriving Repr, Inhabited

structure ConsumeStep where
  topic : String
  groupId : Option String
  timeout : Binary64
  expectedType : Option Kind
  autoOffsetReset : OffsetReset
  bootstrapServers : Option String
  auth : Option BrokerAuthConfig
  deriving Repr, Inhabited

structure BatchProduceStep where
  topic : String
  messages : List (Value × Value)
  headers : MessageHeaders
  timeout : Binary64
  tuning : ProducerTuning
  bootstrapServers : Option String
  auth : Option BrokerAuthConfig
  jsonOptions : List (String × Value)
  deriving Repr, Inhabited

structure BatchConsumeStep where
  topic : String
  messageCount : Int
  groupId : Option String
  timeout : Binary64
  expectedType : Option Kind
  autoOffsetReset : OffsetReset
  bootstrapServers : Option String
  auth : Option BrokerAuthConfig
  deriving Repr, Inhabited

/-- The entries that give message headers their bytes again. -/
def MessageHeaders.entries (headers : MessageHeaders) : List (Value × Value) :=
  headers.map fun (name, bytes) => (.text name, Value.ofOption .bytes bytes)

def HttpDraft.build (d : HttpDraft) : Except Fault HttpStep :=
  if !d.url.truthy then .error (.configuration .noUrl)
  else do
    let timeout ← Draft.seconds "HttpStep" d.timeout
    return { url := d.url.display, method := Text.upper d.method, body := d.body
             headers := d.headers, queryParams := d.queryParams, timeout := timeout
             auth := d.auth }

def HttpStep.draft (s : HttpStep) : HttpDraft :=
  { url := .text s.url, method := s.method, body := s.body, headers := s.headers
    queryParams := s.queryParams, timeout := .float s.timeout, auth := s.auth }

def checkPartition (partition : Option Int) : Except Fault Unit :=
  match partition with
  | some n => if n < 0 then .error (.configuration (.negativePartition n)) else .ok ()
  | none => .ok ()

def ProduceDraft.build (d : ProduceDraft) : Except Fault ProduceStep := do
  let topic ← Draft.topicName "ProduceStep" d.topic
  checkPartition d.partition
  let headers ← Draft.messageHeaders d.headers
  let timeout ← Draft.seconds "ProduceStep" d.timeout
  return { topic := topic, value := d.value, key := d.key, headers := headers
           partition := d.partition, timestamp := d.timestamp, timeout := timeout
           tuning := d.tuning, bootstrapServers := d.bootstrapServers, auth := d.auth
           jsonOptions := d.jsonOptions }

def ProduceStep.draft (s : ProduceStep) : ProduceDraft :=
  { topic := .text s.topic, value := s.value, key := s.key
    headers := MessageHeaders.entries s.headers, partition := s.partition
    timestamp := s.timestamp, timeout := .float s.timeout, tuning := s.tuning
    bootstrapServers := s.bootstrapServers, auth := s.auth, jsonOptions := s.jsonOptions }

def ConsumeDraft.build (d : ConsumeDraft) : Except Fault ConsumeStep := do
  let topic ← Draft.topicName "ConsumeStep" d.topic
  let reset ← OffsetReset.ofValue d.autoOffsetReset
  let timeout ← Draft.seconds "ConsumeStep" d.timeout
  return { topic := topic, groupId := d.groupId, timeout := timeout
           expectedType := d.expectedType, autoOffsetReset := reset
           bootstrapServers := d.bootstrapServers, auth := d.auth }

def ConsumeStep.draft (s : ConsumeStep) : ConsumeDraft :=
  { topic := .text s.topic, groupId := s.groupId, timeout := .float s.timeout
    expectedType := s.expectedType, autoOffsetReset := .text s.autoOffsetReset.text
    bootstrapServers := s.bootstrapServers, auth := s.auth }

def BatchProduceDraft.build (d : BatchProduceDraft) : Except Fault BatchProduceStep := do
  let topic ← Draft.topicName "BatchProduceStep" d.topic
  if d.messages.isEmpty then throw (.configuration .noMessages)
  let headers ← Draft.messageHeaders d.headers
  let timeout ← Draft.seconds "BatchProduceStep" d.timeout
  return { topic := topic, messages := d.messages, headers := headers, timeout := timeout
           tuning := d.tuning, bootstrapServers := d.bootstrapServers, auth := d.auth
           jsonOptions := d.jsonOptions }

def BatchProduceStep.draft (s : BatchProduceStep) : BatchProduceDraft :=
  { topic := .text s.topic, messages := s.messages, headers := MessageHeaders.entries s.headers
    timeout := .float s.timeout, tuning := s.tuning, bootstrapServers := s.bootstrapServers
    auth := s.auth, jsonOptions := s.jsonOptions }

def BatchConsumeDraft.build (d : BatchConsumeDraft) : Except Fault BatchConsumeStep := do
  let topic ← Draft.topicName "BatchConsumeStep" d.topic
  if d.messageCount < 1 then throw (.configuration (.countBelowOne d.messageCount))
  let reset ← OffsetReset.ofValue d.autoOffsetReset
  let timeout ← Draft.seconds "BatchConsumeStep" d.timeout
  return { topic := topic, messageCount := d.messageCount, groupId := d.groupId
           timeout := timeout, expectedType := d.expectedType, autoOffsetReset := reset
           bootstrapServers := d.bootstrapServers, auth := d.auth }

def BatchConsumeStep.draft (s : BatchConsumeStep) : BatchConsumeDraft :=
  { topic := .text s.topic, messageCount := s.messageCount, groupId := s.groupId
    timeout := .float s.timeout, expectedType := s.expectedType
    autoOffsetReset := .text s.autoOffsetReset.text, bootstrapServers := s.bootstrapServers
    auth := s.auth }

inductive Step where
  | http (step : HttpStep)
  | produce (step : ProduceStep)
  | consume (step : ConsumeStep)
  | batchProduce (step : BatchProduceStep)
  | batchConsume (step : BatchConsumeStep)
  deriving Repr, Inhabited

inductive StepDraft where
  | http (draft : HttpDraft)
  | produce (draft : ProduceDraft)
  | consume (draft : ConsumeDraft)
  | batchProduce (draft : BatchProduceDraft)
  | batchConsume (draft : BatchConsumeDraft)
  deriving Repr, Inhabited

inductive Variant where
  | http
  | produce
  | consume
  | batchProduce
  | batchConsume
  deriving DecidableEq, Repr, Inhabited

namespace Variant

def name : Variant → String
  | .http => "HttpStep"
  | .produce => "ProduceStep"
  | .consume => "ConsumeStep"
  | .batchProduce => "BatchProduceStep"
  | .batchConsume => "BatchConsumeStep"

def produceSteps : List Variant := [.produce, .batchProduce]

def consumeSteps : List Variant := [.consume, .batchConsume]

def brokerSteps : List Variant := produceSteps ++ consumeSteps

def all : List Variant := .http :: brokerSteps

def ofName? (s : String) : Option Variant := all.find? (·.name == s)

end Variant

namespace StepDraft

def variant : StepDraft → Variant
  | .http _ => .http
  | .produce _ => .produce
  | .consume _ => .consume
  | .batchProduce _ => .batchProduce
  | .batchConsume _ => .batchConsume

def build : StepDraft → Except Fault Step
  | .http d => d.build.map .http
  | .produce d => d.build.map .produce
  | .consume d => d.build.map .consume
  | .batchProduce d => d.build.map .batchProduce
  | .batchConsume d => d.build.map .batchConsume

def blank : Variant → StepDraft
  | .http => .http {}
  | .produce => .produce {}
  | .consume => .consume {}
  | .batchProduce => .batchProduce {}
  | .batchConsume => .batchConsume {}

end StepDraft

namespace Step

def variant : Step → Variant
  | .http _ => .http
  | .produce _ => .produce
  | .consume _ => .consume
  | .batchProduce _ => .batchProduce
  | .batchConsume _ => .batchConsume

def draft : Step → StepDraft
  | .http s => .http s.draft
  | .produce s => .produce s.draft
  | .consume s => .consume s.draft
  | .batchProduce s => .batchProduce s.draft
  | .batchConsume s => .batchConsume s.draft

/-- Where a step goes: the address of a request, the topic of messages. -/
def target : Step → String
  | .http s => s.url
  | .produce s => s.topic
  | .consume s => s.topic
  | .batchProduce s => s.topic
  | .batchConsume s => s.topic

end Step

end Rehearsal
