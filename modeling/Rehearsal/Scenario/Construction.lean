import Rehearsal.Auth.Reading
import Rehearsal.Scenario.Engine
import Rehearsal.Url.Reference

/-!
The calls that describe a step: entry points, verbs and modifiers.

`Engine.construct` makes the change a call asks for or tells why it cannot be made, in which case the
scenario stays as it was. What a caller may write in several ways is a value; it is converted before
the state of the scenario is looked at.
-/

namespace Rehearsal

inductive SaslMechanism where
  | plain
  | scram256
  | scram512
  deriving DecidableEq, Repr, Inhabited

namespace SaslMechanism

def config (mechanism : SaslMechanism) (sasl : SaslAuth) (ssl : Option SslAuth) :
    BrokerAuthConfig :=
  match mechanism with
  | .plain => .ofPlain sasl ssl
  | .scram256 => .ofScram256 sasl ssl
  | .scram512 => .ofScram512 sasl ssl

def operation : SaslMechanism → String
  | .plain => "with_sasl_plain"
  | .scram256 => "with_sasl_scram_256"
  | .scram512 => "with_sasl_scram_512"

end SaslMechanism

inductive TuningChange where
  | compression (value : Value)
  | acks (value : Value)
  | batchSize (value : Value)
  | linger (value : Value)
  | retries (value : Value)
  | idempotence (value : Value)
  deriving Repr, Inhabited

namespace TuningChange

def operation : TuningChange → String
  | .compression _ => "with_compression"
  | .acks _ => "with_acks"
  | .batchSize _ => "with_batch_size"
  | .linger _ => "with_linger"
  | .retries _ => "with_retries"
  | .idempotence _ => "with_idempotence"

/-- A lingering time in whole milliseconds. -/
def lingerMillis : Value → Value
  | .span s => .int (((s.totalSeconds * Binary64.ofNat 1000).truncate?).getD 0)
  | value => value

def applyTo (t : ProducerTuning) : TuningChange → ProducerTuning
  | .compression v => { t with compression := v }
  | .acks v => { t with acks := .text v.display }
  | .batchSize v => { t with batchSize := v }
  | .linger v => { t with lingerMs := lingerMillis v }
  | .retries v => { t with retries := v }
  | .idempotence v => { t with idempotence := v }

end TuningChange

inductive Construction where
  -- entry points
  | apiResource (path : String)
  | topic (name : Value)
  | produce (args : List Value)
  | consume
  | produceBatch (messages : Value)
  | consumeBatch (count : Int)
  -- verbs
  | verb (method : String) (body : Value)
  -- modifiers of every step
  | timeout (seconds : Value)
  | header (name : String) (value : Value)
  | headers (pairs : List (Value × Value))
  -- modifiers of requests
  | queryParam (name : String) (value : Value)
  | httpAuth (operation : String) (config : Option HttpAuthConfig)
  | apiKey (value name location : Value)
  | customHeader (name : String) (value : Value)
  | customHeaders (headers : Value)
  | oauth2 (given : List (String × Value))
  -- modifiers of steps with a broker
  | bootstrapServers (servers : String)
  | brokerAuth (operation : String) (config : Option BrokerAuthConfig)
  | sasl (mechanism : SaslMechanism) (auth : SaslAuth)
  | ssl (auth : SslAuth)
  | key (value : Value)
  | partition (number : Option Int)
  | timestamp (time : Value)
  | tune (change : TuningChange)
  | tuning (settings : ProducerTuning)
  | jsonOptions (options : List (String × Value))
  | groupId (text : String)
  | expectedType (kind : Option Kind)
  | autoOffsetReset (value : Value)
  deriving Repr, Inhabited

def Instant.RangeFlaw.fault : Instant.RangeFlaw → Fault
  | .notANumber => .badValue "cannot convert float NaN to integer"
  | .endless => .raised .overflow "cannot convert float infinity to integer"
  | .beyondClock => .raised .overflow "timestamp out of range for platform time_t"
  | .beyondCalendar => .raised .system "[Errno 75] Value too large for defined data type"
  | .year n => .badValue ("year " ++ toString n ++ " is out of range")

def Instant.ofEpochMillis (n : Int) : Except Fault Instant := do
  let millis ← Binary64.ofIntChecked n
  match Instant.ofEpochSeconds (millis / Binary64.ofNat 1000) with
  | .ok t => return t
  | .error flaw => throw flaw.fault

namespace Construction

def seconds : Value → Except Fault Binary64
  | .span s => .ok s.totalSeconds
  | value => value.toFloat

/-- The time of a message, given as such or in milliseconds since the epoch. -/
def time : Value → Except Fault (Option Instant)
  | .int n => (Instant.ofEpochMillis n).map some
  | .bool b => (Instant.ofEpochMillis (if b then 1 else 0)).map some
  | .instant t => .ok (some t)
  | _ => .ok none

/-- One of the pairs that a mapping is made of; whatever lists two elements will do. -/
def pairOf (item : Value) (i : Nat) : Except Fault (Value × Value) := do
  match AuthReading.elements item with
  | .ok [name, value] =>
    match name.keyFlaw? with
    | some type => throw (Fault.noKey type)
    | none => return (name, value)
  | .ok parts =>
    throw (.badValue ("dictionary update sequence element #" ++ toString i ++ " has length "
      ++ toString parts.length ++ "; 2 is required"))
  | .error _ =>
    throw (.wrongType ("cannot convert dictionary update sequence element #" ++ toString i
      ++ " to a sequence"))

/-- Names and values given as a mapping or as pairs, of which the last with a name counts. -/
def pairsOf (given : Value) : Except Fault (List (Value × Value)) :=
  match given with
  | .map entries => .ok entries
  | given => do
    let pairs ← (← AuthReading.elements given).zipIdx.mapM fun (item, i) => pairOf item i
    return pairs.foldl (fun made (name, value) => Value.insert name value made) []

/-- A batch of messages: a mapping, or pairs of key and value. -/
def batchOf (given : Value) : Except Fault (List (Value × Value)) :=
  match given with
  | .map entries => .ok entries
  | given => do
    (← AuthReading.elements given).mapM fun
      | .tuple [a, b] => pure (a, b)
      | item => throw (.configuration (.notPairs item.shown))

/-- OAuth2 authentication from named values. -/
def oauth2Of (given : List (String × Value)) : Except Fault OAuth2Auth := do
  let grant ← Grant.ofValue ((Keyed.get? given "grant_type").getD (.text "client_credentials"))
  let scopes ← AuthReading.elements ((Keyed.get? given "scopes").getD (.tuple []))
  let additional ←
    pairsOf (AuthReading.orEmpty (Keyed.get? given "additional_parameters") (.map []))
  match AuthReading.oauth2Shape.bind (given.map fun (name, value) => (.text name, value)) with
  | .error why => throw (.wrongType why)
  | .ok given => return AuthReading.oauth2Of ⟨[], grant, scopes, additional⟩ given

/-- What is wrong with named values that should describe OAuth2 authentication. -/
def oauth2Flaw (fault : Fault) : Fault :=
  if fault.kind.isA .wrongType || fault.kind.isA .badValue then
    .configuration (.invalidOAuth2 fault.message)
  else fault

end Construction

namespace Engine

def resourceUrl (e : Engine) (path : String) : Except Fault String :=
  match Url.referenceFlaw? path.toList with
  | some why => .error (.badValue why.message)
  | none =>
    if Url.isAbsolute path.toList then .ok path
    else if e.settings.http.baseUrl = "" then .error (.configuration (.noBaseUrl path))
    else (Url.under e.settings.http.baseUrl path).mapError fun why => .badValue why.message

/-- The topic that a step about to be described is for. -/
def pendingTopic (e : Engine) (operation : String) : Except Fault Value :=
  match e.context.properties.ofKind? "topic" .text with
  | some topic => .ok topic
  | none => .error (.configuration (.noPendingTopic operation))

def start (e : Engine) (draft : StepDraft) : Except Fault Engine := draft.build.map e.setStep

def startHttp (e : Engine) (path : String) : Except Fault Engine := do
  e.checkBuilding "api_resource"
  if path = "" then throw (.configuration .noResource)
  let url ← e.resourceUrl path
  e.start (.http { url := .text url, timeout := .float e.settings.http.timeout })

def chooseTopic (e : Engine) (name : Value) : Except Fault Engine := do
  e.checkBuilding "topic"
  if !name.truthy || Text.isBlankText name.display then throw (.configuration .noTopicName)
  return { e with context := e.context.set "topic" name }

def startProduce (e : Engine) (key value : Value) : Except Fault Engine := do
  e.checkBuilding "produce"
  let topic ← e.pendingTopic "produce"
  e.start (.produce { topic := topic, key := key, value := value })

def startConsume (e : Engine) : Except Fault Engine := do
  e.checkBuilding "consume"
  let topic ← e.pendingTopic "consume"
  e.start (.consume { topic := topic, groupId := some e.settings.broker.groupId })

def startProduceBatch (e : Engine) (messages : Value) : Except Fault Engine := do
  e.checkBuilding "produce_batch"
  let pairs ← Construction.batchOf messages
  let topic ← e.pendingTopic "produce_batch"
  e.start (.batchProduce { topic := topic, messages := pairs })

def startConsumeBatch (e : Engine) (count : Int) : Except Fault Engine := do
  e.checkBuilding "consume_batch"
  let topic ← e.pendingTopic "consume_batch"
  e.start (.batchConsume
    { topic := topic, messageCount := count, groupId := some e.settings.broker.groupId })

/-- The entries that a header modifier starts from: those of a request or of messages. -/
def headerEntries : Step → List (Value × Value)
  | .http s => s.headers.map fun (name, value) => (.text name, value)
  | .produce s => MessageHeaders.entries s.headers
  | .batchProduce s => MessageHeaders.entries s.headers
  | _ => []

/-- Adds a header: to a request as text under its name, to a message after the others. -/
def addHeader (e : Engine) (name : String) (value : Value) : Except Fault Engine := do
  let accepted := .http :: Variant.produceSteps
  let step ← e.require "with_header" accepted
  let value := if step.variant = .http then .text value.display else value
  e.evolve "with_header" accepted [.headers (headerEntries step ++ [(.text name, value)])]

/-- Headers of a request are merged into those it has, headers of messages replace them. -/
def setHeaders (e : Engine) (pairs : List (Value × Value)) : Except Fault Engine := do
  let accepted := .http :: Variant.produceSteps
  let step ← e.require "with_headers" accepted
  let entries :=
    if step.variant = .http then
      headerEntries step ++ pairs.map fun (name, value) => (name, .text value.display)
    else pairs
  e.evolve "with_headers" accepted [.headers entries]

def addQueryParam (e : Engine) (name : String) (value : Value) : Except Fault Engine := do
  match ← e.require "with_query_param" [.http] with
  | .http step =>
    let given := step.queryParams.map fun (name, value) => (Value.text name, value)
    e.evolve "with_query_param" [.http] [.queryParams (given ++ [(.text name, .text value.display)])]
  | _ => return e

def setHttpAuth (e : Engine) (operation : String) (config : Option HttpAuthConfig) :
    Except Fault Engine := do
  let _ ← e.require operation [.http]
  let _ ← HttpStrategy.resolve config
  e.evolve operation [.http] [.httpAuth config]

/-- The custom headers of a request other than those of a name. -/
def otherCustomHeaders (step : Step) (name : String) : List (String × Value) :=
  match step with
  | .http s =>
    match s.auth with
    | some config =>
      match config.type, config.customHeader with
      | .customHeader, some custom =>
        custom.headers.filter fun header => !Text.sameIgnoringCase header.1 name
      | _, _ => []
    | none => []
  | _ => []

/-- Adds a custom header to the custom headers a request has. -/
def addCustomHeader (e : Engine) (name : String) (value : Value) : Except Fault Engine := do
  let step ← e.require "with_custom_header" [.http]
  let headers := otherCustomHeaders step name ++ [(name, .text value.display)]
  e.setHttpAuth "with_custom_header" (some (.ofCustomHeaders ⟨headers⟩))

def setOAuth2 (e : Engine) (given : List (String × Value)) : Except Fault Engine :=
  match Construction.oauth2Of given with
  | .error fault => .error (Construction.oauth2Flaw fault)
  | .ok auth => e.setHttpAuth "with_oauth2" (some (.ofOAuth2 auth))

/-- Gives a step with a broker a configuration that resolves to a strategy. -/
def setBrokerAuth (e : Engine) (operation : String) (config : Option BrokerAuthConfig) :
    Except Fault Engine := do
  let _ ← e.require operation Variant.brokerSteps
  let _ ← BrokerStrategy.resolve config
  e.evolve operation Variant.brokerSteps [.brokerAuth config]

end Engine

def Step.brokerAuth : Step → Option BrokerAuthConfig
  | .http _ => none
  | .produce s => s.auth
  | .consume s => s.auth
  | .batchProduce s => s.auth
  | .batchConsume s => s.auth

def Step.producerTuning : Step → ProducerTuning
  | .produce s => s.tuning
  | .batchProduce s => s.tuning
  | _ => .plain

namespace Engine

/-- Signs in with a name and a password, with the TLS settings the step has. -/
def setSasl (e : Engine) (mechanism : SaslMechanism) (auth : SaslAuth) : Except Fault Engine := do
  let step ← e.require mechanism.operation Variant.brokerSteps
  let ssl := step.brokerAuth.bind (·.ssl)
  e.setBrokerAuth mechanism.operation (some (mechanism.config auth ssl))

/-- Adds TLS settings to a step that signs in, else selects authentication by TLS. -/
def setSsl (e : Engine) (ssl : SslAuth) : Except Fault Engine := do
  let step ← e.require "with_ssl" Variant.brokerSteps
  let config : BrokerAuthConfig :=
    match step.brokerAuth with
    | some auth => if auth.type.isSasl then { auth with ssl := some ssl } else .ofSsl ssl
    | none => .ofSsl ssl
  e.setBrokerAuth "with_ssl" (some config)

def tune (e : Engine) (change : TuningChange) : Except Fault Engine := do
  let step ← e.require change.operation Variant.produceSteps
  let tuning ← (change.applyTo step.producerTuning).check
  e.evolve change.operation Variant.produceSteps [.tuning tuning]

def setJsonOptions (e : Engine) (options : List (String × Value)) : Except Fault Engine :=
  match unknownFields jsonOptionNames (options.map (·.1)) with
  | [] => e.evolve "with_json_options" Variant.produceSteps [.jsonOptions options]
  | unknown => .error (.configuration (.unsupportedJsonOptions unknown))

/-- The scenario after a call that describes a step. -/
def construct (e : Engine) : Construction → Except Fault Engine
  | .apiResource path => e.startHttp path
  | .topic name => e.chooseTopic name
  | .produce [value] => e.startProduce .null value
  | .produce [key, value] => e.startProduce key value
  | .produce args =>
    .error (.wrongType ("produce() takes a value or a key and a value, got "
      ++ toString args.length ++ " arguments"))
  | .consume => e.startConsume
  | .produceBatch messages => e.startProduceBatch messages
  | .consumeBatch count => e.startConsumeBatch count
  | .verb method body => e.evolve (Text.lower method) [.http] [.method method, .body body]
  | .timeout seconds => do
    let seconds ← Construction.seconds seconds
    e.evolve "with_timeout" Variant.all [.timeout (.float seconds)]
  | .header name value => e.addHeader name value
  | .headers pairs => e.setHeaders pairs
  | .queryParam name value => e.addQueryParam name value
  | .httpAuth operation config => e.setHttpAuth operation config
  | .apiKey value name location => do
    let location ← KeyLocation.ofValue location
    e.setHttpAuth "with_api_key" (some (.ofApiKey value name location))
  | .customHeader name value => e.addCustomHeader name value
  | .customHeaders headers => do
    let entries ← AuthReading.entriesOf headers
    e.setHttpAuth "with_custom_headers" (some (.ofCustomHeaders (.ofEntries entries)))
  | .oauth2 given => e.setOAuth2 given
  | .bootstrapServers "" => .error (.configuration (.noValueFor "with_bootstrap_servers"))
  | .bootstrapServers servers =>
    e.evolve "with_bootstrap_servers" Variant.brokerSteps [.bootstrapServers (some servers)]
  | .brokerAuth operation config => e.setBrokerAuth operation config
  | .sasl mechanism auth => e.setSasl mechanism auth
  | .ssl auth => e.setSsl auth
  | .key value => e.evolve "with_key" [.produce] [.key value]
  | .partition number => e.evolve "with_partition" [.produce] [.partition number]
  | .timestamp time => do
    let time ← Construction.time time
    e.evolve "with_timestamp" [.produce] [.timestamp time]
  | .tune change => e.tune change
  | .tuning settings => e.evolve "with_producer_tuning" Variant.produceSteps [.tuning settings]
  | .jsonOptions options => e.setJsonOptions options
  | .groupId "" => .error (.configuration (.noValueFor "with_group_id"))
  | .groupId text => e.evolve "with_group_id" Variant.consumeSteps [.groupId (some text)]
  | .expectedType kind => e.evolve "with_expected_type" Variant.consumeSteps [.expectedType kind]
  | .autoOffsetReset value =>
    e.evolve "with_auto_offset_reset" Variant.consumeSteps [.autoOffsetReset value]

end Engine

end Rehearsal
