import Rehearsal.Scenario.Word
import Rehearsal.Script.Step

/-!
Calls on a scenario written as JSON: the name of a method and its arguments.
-/

namespace Rehearsal.Script

/-- The verbs that take no body. -/
def bareVerbs : List String := ["get", "delete", "head", "options"]

def bodyVerbs : List String := ["post", "put", "patch"]

/-- The parameters of OAuth2 authentication that are given by position. -/
def oauth2Positions : List String :=
  ["token_url", "client_id", "client_secret", "scopes", "grant_type"]

/-- Arguments: those given by position, and those given by name. -/
structure Arguments where
  args : List Value
  named : List (String × Value)

namespace Arguments

def given? (a : Arguments) (i : Nat) (name : String) : Option Value :=
  match a.args[i]? with
  | some v => some v
  | none => Keyed.get? a.named name

/-- An argument as it is written, null if it is not given. -/
def raw (a : Arguments) (i : Nat) : Value := (a.args[i]?).getD .null

def value (a : Arguments) (i : Nat) (name : String) (default : Value) : Value :=
  ((a.given? i name).map read).getD default

def first (a : Arguments) : Value := read (a.raw 0)

def second (a : Arguments) : Value := read (a.raw 1)

/-- A text, empty for null. -/
def text (a : Arguments) : String :=
  match a.first with
  | .null => ""
  | v => v.display

def sasl (a : Arguments) : SaslAuth :=
  ⟨a.first, a.second, a.value 2 "use_ssl" (.bool true)⟩

def ssl (a : Arguments) : SslAuth :=
  ⟨a.value 0 "ca_location" .null, a.value 1 "certificate_location" .null,
    a.value 2 "key_location" .null, a.value 3 "key_password" .null,
    a.value 4 "enable_verification" (.bool true)⟩

def mutualTls (a : Arguments) : SslAuth :=
  ⟨a.value 2 "ca_location" .null, a.first, a.second, a.value 3 "key_password" .null, .bool true⟩

def oauth2 (a : Arguments) : List (String × Value) :=
  let rest := a.named.filter fun entry => !(oauth2Positions.take a.args.length).contains entry.1
  (oauth2Positions.zip a.args ++ rest).map fun (name, value) => (name, read value)

end Arguments

/-- Modifiers that tune a producer. -/
def tuningCall? (method : String) (a : Arguments) : Option TuningChange :=
  match method with
  | "with_compression" => some (.compression a.first)
  | "with_acks" => some (.acks a.first)
  | "with_batch_size" => some (.batchSize a.first)
  | "with_linger" => some (.linger a.first)
  | "with_retries" => some (.retries a.first)
  | "with_idempotence" => some (.idempotence (a.value 0 "enabled" (.bool true)))
  | _ => none

def authCall? (method : String) (a : Arguments) : Except Fault (Option Construction) := do
  let http (config : HttpAuthConfig) : Option Construction := some (.httpAuth method (some config))
  let broker (config : BrokerAuthConfig) : Option Construction :=
    some (.brokerAuth method (some config))
  match method with
  | "with_basic_auth" => return http (.ofBasic a.first a.second)
  | "with_bearer_token" => return http (.ofBearer a.first (a.value 1 "prefix" (.text "Bearer")))
  | "with_api_key" =>
    return some (.apiKey a.first (a.value 1 "name" (.text "X-API-Key"))
      (a.value 2 "location" (.text "header")))
  | "with_custom_header" => return some (.customHeader a.text a.second)
  | "with_custom_headers" => return some (.customHeaders a.first)
  | "with_oauth2" => return some (.oauth2 a.oauth2)
  | "with_oauth2_config" =>
    return (← oauth2? (field (a.raw 0) "$oauth2")).map fun auth =>
      .httpAuth "with_oauth2" (some (.ofOAuth2 auth))
  | "with_certificate" =>
    return http (.ofCertificate
      ⟨a.first, a.value 1 "key_path" .null, a.value 2 "password" .null⟩)
  | "with_no_auth" => return http .noAuth
  | "with_auth" => return some (.httpAuth method (← httpAuth? (field (a.raw 0) "$http_auth")))
  | "with_sasl_plain" => return some (.sasl .plain a.sasl)
  | "with_sasl_scram_256" => return some (.sasl .scram256 a.sasl)
  | "with_sasl_scram_512" => return some (.sasl .scram512 a.sasl)
  | "with_ssl" => return some (.ssl a.ssl)
  | "with_mutual_tls" => return broker (.ofMutualTls a.mutualTls)
  | "with_no_broker_auth" => return broker .noAuth
  | "with_broker_auth" =>
    return some (.brokerAuth method (← brokerAuth? (field (a.raw 0) "$broker_auth")))
  | _ => return none

def plainCall? (method : String) (a : Arguments) : Except Fault (Option Construction) := do
  match method with
  | "api_resource" => return some (.apiResource a.text)
  | "topic" => return some (.topic a.first)
  | "produce" => return some (.produce (a.args.map read))
  | "consume" => return some .consume
  | "produce_batch" => return some (.produceBatch a.first)
  | "consume_batch" => return some (.consumeBatch (readInt (a.raw 0)))
  | "with_timeout" => return some (.timeout a.first)
  | "with_header" => return some (.header a.text a.second)
  | "with_headers" => return some (.headers (readPairs (a.raw 0)))
  | "with_query_param" => return some (.queryParam a.text a.second)
  | "with_bootstrap_servers" => return some (.bootstrapServers a.text)
  | "with_key" => return some (.key a.first)
  | "with_partition" => return some (.partition (readInt? (a.raw 0)))
  | "with_timestamp" => return some (.timestamp a.first)
  | "with_producer_tuning" => return some (.tuning (← tuning? (field (a.raw 0) "$tuning")))
  | "with_json_options" =>
    return some (.jsonOptions (a.named.map fun (name, value) => (name, read value)))
  | "with_group_id" => return some (.groupId a.text)
  | "with_expected_type" => return some (.expectedType (readKind? (a.raw 0)))
  | "with_auto_offset_reset" => return some (.autoOffsetReset a.first)
  | _ => return none

/-- The call of a method with these arguments; a method of no other kind does nothing. -/
def callOf (method : String) (a : Arguments) : Except Fault Call := do
  match method with
  | "execute" => return .execute
  | "and_" => return .advance
  | "save_step" => return .saveStep a.text
  | method =>
    if bareVerbs.contains method then return .construct (.verb (Text.upper method) .null)
    else if bodyVerbs.contains method then
      return .construct (.verb (Text.upper method) (a.value 0 "body" .null))
    else
      match tuningCall? method a with
      | some change => return .construct (.tune change)
      | none =>
        match ← authCall? method a with
        | some call => return .construct call
        | none => return ((← plainCall? method a).map .construct).getD .idle

def call (j : Value) : Except Fault Call :=
  let method := textOf (field j "do")
  let named := entriesOf (field j "kwargs")
  let required := (Keyed.get? Word.required method).getD []
  callOf method ⟨placed required (itemsOf (field j "args")) named, named⟩

end Rehearsal.Script
