import Rehearsal.Execution.World
import Rehearsal.Step

/-!
Sending messages to a broker and receiving them.

A step that asks for nothing of its own sends through the producer that all steps share; any other
step opens a producer for itself and closes it after its last send, even one that ends late. Every
step that receives opens a consumer for itself and closes it after its last poll. What a client
raises, or a deadline that passes, becomes a failed result.
-/

/-!
The result of a batch: it succeeds if every item does and none is missing.

The errors are those of the items, each with the number of its item in front; a shortfall of the
whole batch comes first.
-/

namespace Rehearsal

/-- The errors of failing items, the first item having the number `start`. -/
def itemErrors (start : Nat) : List StepResult → List String
  | [] => []
  | item :: rest =>
    (if item.success then []
      else item.errors.map fun e => "message " ++ toString start ++ ": " ++ e)
      ++ itemErrors (start + 1) rest

def shortfallText : Option Fault → List String
  | some fault => [fault.message]
  | none => []

/-- The fault of a batch: its shortfall, else that of the first failing item. -/
def batchFault (items : List StepResult) (shortfall : Option Fault) : Option Fault :=
  match shortfall with
  | some fault => some fault
  | none => (items.find? fun item => !item.success).bind (·.error)

def persistedCount (items : List StepResult) : Nat :=
  items.countP fun item => item.delivery == some .persisted

def countProperty (kind : StepKind) (items : List StepResult) : String × Value :=
  if kind = .batchProduce then ("persisted", .int (persistedCount items))
  else ("message_count", .int items.length)

def batchResult (now : Instant) (kind : StepKind) (topic : String) (items : List StepResult)
    (expected : Int) (shortfall : Option Fault) : StepResult :=
  let errors := shortfallText shortfall ++ itemErrors 0 items
  let ok := errors.isEmpty && (items.length : Int) == expected
  { kind := kind, success := ok, payload := .list (items.map (·.payload))
    properties := [("topic", .text topic), ("batch_size", .int items.length),
      ("expected_count", .int expected), ("timing", (StepResult.timing items).fields),
      countProperty kind items]
    errors := errors, error := batchFault items shortfall, metadata := .ofRun now ok
    items := items }

/-! Running steps with a broker. -/

def BrokerSettings.clientConfig (settings : BrokerSettings) (servers : Option String)
    (auth : Option BrokerAuthConfig) (role suffix : String) : Except Fault ClientConfig := do
  let strategy ← BrokerStrategy.resolve (given auth settings.auth)
  let servers :=
    match servers with
    | some "" => settings.bootstrapServers
    | some servers => servers
    | none => settings.bootstrapServers
  return strategy.applyTo [("bootstrap.servers", .text servers),
    ("client.id", .text (settings.clientIdStem ++ "-" ++ role ++ "-" ++ suffix))]

def encodeMessage (topic : String) (headers : MessageHeaders) (options : List (String × Value))
    (partition : Option Int) (timestamp : Option Instant) (key value : Value) :
    Except Fault Outgoing := do
  let key ← Codec.encodeWith key []
  let value ← Codec.encodeWith value options
  return ⟨topic, key, value, headers, partition, timestamp.map Instant.epochMillis⟩

def messageHeaderGroups (headers : MessageHeaders) : List (String × List Value) :=
  groupHeaders (headers.map fun (name, bytes) => (name, .ofOption .bytes bytes))

/-- The result of a message whose delivery was reported. -/
def reportedResult (now : Instant) (topic : String) (headers : MessageHeaders) (key value : Value)
    (report : DeliveryReport) : StepResult :=
  let sent : StepResult :=
    { kind := .produce, success := true, delivery := some report.status, payload := value
      headers := messageHeaderGroups headers
      properties := [("topic", .text report.topic), ("partition", .int report.partition),
        ("offset", .int report.offset), ("timestamp", .int report.timestamp), ("key", key),
        ("status", .text report.status.text)]
      metadata := .ofRun now true }
  if report.status = .persisted then sent
  else
    let fault : Fault := .deliveryFailure topic report.status.text
    { sent with
      success := false, errors := [fault.message], error := some fault
      metadata := .ofRun now false }

def sendResult (now : Instant) (topic : String) (deadline : Binary64) (headers : MessageHeaders)
    (key value : Value) (outcome : SendOutcome) : StepResult :=
  let failed (fault : Fault) : StepResult :=
    .failure now .produce fault value [("topic", .text topic), ("key", key)]
  match outcome with
  | .delivered report => reportedResult now topic headers key value report
  | .raised why => failed (.transport (.producing topic why))
  | .late => failed (.stepTimeout (.sendUnfinished topic deadline))

namespace BatchProduceStep

/-- The items of a batch in the order of its messages, each by the outcome of its send. -/
def results (step : BatchProduceStep) (now : Instant) (outcomes : Nat → SendOutcome) :
    List StepResult :=
  step.messages.mapIdx fun i (key, value) =>
    sendResult now step.topic step.timeout step.headers key value (outcomes i)

def result (step : BatchProduceStep) (now : Instant) (outcomes : Nat → SendOutcome) :
    StepResult :=
  batchResult now .batchProduce step.topic (step.results now outcomes) step.messages.length none

def messagesToSend (step : BatchProduceStep) : List (Except Fault Outgoing) :=
  step.messages.map fun (key, value) =>
    encodeMessage step.topic step.headers step.jsonOptions none none key value

end BatchProduceStep

namespace World

/-- A producer and whether it belongs to the step alone. -/
def producer (w : World) (settings : Settings) (tuning : ProducerTuning) (servers : Option String)
    (auth : Option BrokerAuthConfig) : Except Fault (Nat × Bool) × World :=
  match settings.broker.clientConfig servers auth "producer" (w.suffix w.pool.opened) with
  | .error fault => (.error fault, w)
  | .ok config =>
    let config := config.putAll tuning.config
    let isShared := tuning.isDefault && servers.isNone && auth.isNone
    let acquired :=
      if isShared then w.pool.sharedProducer config none else w.pool.createProducer config none
    w.withPool (acquired.1.map fun client => (client, !isShared), acquired.2)

/-- Writes down the calls of a client. -/
def used (w : World) (client : Nat) (calls : Nat) : World :=
  { w with pool := { w.pool with log := w.pool.log ++ List.replicate calls (.used client) } }

def sendBy (w : World) (client : Nat) (owned : Bool) (sends : List Send) (schedule : Schedule) :
    (Nat → SendOutcome) × World :=
  let calls := Cluster.callsIn sends schedule
  let (outcomes, cluster) := w.cluster.performBy sends schedule
  let w := { w with cluster := cluster.spend calls }.used client calls
  (outcomes, if owned then { w with pool := w.pool.dispose client } else w)

/-- Sends messages through the producer of a step. -/
def sendAll (w : World) (settings : Settings) (tuning : ProducerTuning) (servers : Option String)
    (auth : Option BrokerAuthConfig) (deadline : Binary64)
    (messages : List (Except Fault Outgoing)) : Except Fault (Nat → SendOutcome) × World :=
  match w.producer settings tuning servers auth with
  | (.error fault, w) => (.error fault, w)
  | (.ok (client, owned), w) =>
    match w.withPool (w.pool.executor none) with
    | (.error fault, w) => (.error fault, w)
    | (.ok _, w) =>
      let sends := w.cluster.prepare messages
      let (outcomes, w) := w.sendBy client owned sends (w.cluster.schedule deadline sends)
      (.ok outcomes, w)

def runProduce (w : World) (settings : Settings) (step : ProduceStep) :
    Except Fault StepResult × World :=
  let message := encodeMessage step.topic step.headers step.jsonOptions step.partition
    step.timestamp step.key step.value
  match w.sendAll settings step.tuning step.bootstrapServers step.auth step.timeout [message] with
  | (.error fault, w) => (.error fault, w)
  | (.ok outcomes, w) =>
    (.ok (sendResult w.now step.topic step.timeout step.headers step.key step.value (outcomes 0)),
      w)

def runBatchProduce (w : World) (settings : Settings) (step : BatchProduceStep) :
    Except Fault StepResult × World :=
  match w.sendAll settings step.tuning step.bootstrapServers step.auth step.timeout
    step.messagesToSend with
  | (.error fault, w) => (.error fault, w)
  | (.ok outcomes, w) => (.ok (step.result w.now outcomes), w)

def consumer (w : World) (settings : Settings) (servers : Option String)
    (auth : Option BrokerAuthConfig) (group : Option String) (reset : OffsetReset) :
    Except Fault (Nat × Consumer) × World :=
  match settings.broker.clientConfig servers auth "consumer" (w.suffix w.pool.opened) with
  | .error fault => (.error fault, w)
  | .ok config =>
    let group :=
      match group with
      | some "" => settings.broker.groupId
      | some group => group
      | none => settings.broker.groupId
    let config := ClientConfig.putAll config [("group.id", .text group),
      ("auto.offset.reset", .text reset.text), ("enable.auto.commit", .bool true)]
    let acquired := w.pool.createConsumer config none
    w.withPool (acquired.1.map fun client => (client, Consumer.ofConfig config), acquired.2)

def poll (w : World) (client : Nat) (consumer : Consumer) (topic : String) :
    PollOutcome × World :=
  let (outcome, cluster) := w.cluster.poll consumer topic
  (outcome, { w with cluster := cluster }.note (.used client))

/-- Polls up to a number of times, as long as messages come: the messages, and why polling
stopped if a client raised. -/
def drain (w : World) (client : Nat) (consumer : Consumer) (topic : String) :
    Nat → List Message × Option String × World
  | 0 => ([], none, w)
  | count + 1 =>
    match w.poll client consumer topic with
    | (.received message, w) =>
      let (messages, why, w) := w.drain client consumer topic count
      (message :: messages, why, w)
    | (.nothing, w) => ([], none, w)
    | (.hung, w) => ([], none, w)
    | (.raised why, w) => ([], some why, w)

end World

def expectedName (kind : Option Kind) : String := (kind.map Kind.name).getD "None"

def messageResult (now : Instant) (expected : Option Kind) (m : Message) : StepResult :=
  let properties : List (String × Value) :=
    [("topic", .text m.topic), ("partition", .int m.partition), ("offset", .int m.offset),
      ("key", Codec.decodeKey m.key), ("timestamp", .int m.timestamp)]
  let headers := messageHeaderGroups m.headers
  match Codec.decode m.value expected with
  | .ok payload =>
    { kind := .consume, success := true, payload := payload, headers := headers
      properties := properties, metadata := .ofRun now true }
  | .error fault =>
    { StepResult.failure now .consume
        (.transport (.undecodable m.topic m.partition m.offset (expectedName expected)
          fault.message)) (.ofOption .bytes m.value) properties with headers := headers }

namespace ConsumeStep

def result (step : ConsumeStep) (now : Instant) (outcome : PollOutcome) : StepResult :=
  let failed (fault : Fault) : StepResult :=
    .failure now .consume fault .null [("topic", .text step.topic)]
  match outcome with
  | .received message => messageResult now step.expectedType message
  | .raised why => failed (.transport (.consuming step.topic why))
  | _ => failed (.stepTimeout (.nothingConsumed step.topic step.timeout))

end ConsumeStep

namespace BatchConsumeStep

/-- Why fewer messages came than were asked for. -/
def shortfall (step : BatchConsumeStep) (received : Nat) (why : Option String) : Option Fault :=
  match why with
  | some why => some (.transport (.consuming step.topic why))
  | none =>
    if (received : Int) < step.messageCount then
      some (.stepTimeout (.consumedFewer received step.messageCount step.topic step.timeout))
    else none

def result (step : BatchConsumeStep) (now : Instant) (messages : List Message)
    (why : Option String) : StepResult :=
  batchResult now .batchConsume step.topic (messages.map (messageResult now step.expectedType))
    step.messageCount (step.shortfall messages.length why)

end BatchConsumeStep

namespace World

def runConsume (w : World) (settings : Settings) (step : ConsumeStep) :
    Except Fault StepResult × World :=
  match w.consumer settings step.bootstrapServers step.auth step.groupId step.autoOffsetReset with
  | (.error fault, w) => (.error fault, w)
  | (.ok (client, consumer), w) =>
    let (outcome, w) := w.poll client consumer step.topic
    (.ok (step.result w.now outcome), w.note (.closed client))

def runBatchConsume (w : World) (settings : Settings) (step : BatchConsumeStep) :
    Except Fault StepResult × World :=
  match w.consumer settings step.bootstrapServers step.auth step.groupId step.autoOffsetReset with
  | (.error fault, w) => (.error fault, w)
  | (.ok (client, consumer), w) =>
    let (messages, why, w) := w.drain client consumer step.topic step.messageCount.toNat
    (.ok (step.result w.now messages why), w.note (.closed client))

end World

end Rehearsal
