import Rehearsal.Scenario

/-!
Calls on a scenario by a bare word, without arguments.

Many calls can be made so: the verbs, running, going on, and modifiers that need nothing more. Other
words name calls that lack an argument, or things that are no calls, or nothing at all.
-/

namespace Rehearsal

/-- The type of scenarios, as messages call it. -/
def Engine.typeName : String := "ScenarioEngine"

namespace Word

def nothing : SslAuth := ⟨.null, .null, .null, .null, .bool true⟩

def call? (word : String) : Option Call :=
  match word with
  | "execute" => some .execute
  | "and_" => some .advance
  | "given" => some .idle
  | "when" => some .idle
  | "then" => some .idle
  | "results" => some .idle
  | "get" => some (.construct (.verb "GET" .null))
  | "post" => some (.construct (.verb "POST" .null))
  | "put" => some (.construct (.verb "PUT" .null))
  | "patch" => some (.construct (.verb "PATCH" .null))
  | "delete" => some (.construct (.verb "DELETE" .null))
  | "head" => some (.construct (.verb "HEAD" .null))
  | "options" => some (.construct (.verb "OPTIONS" .null))
  | "consume" => some (.construct .consume)
  | "produce" => some (.construct (.produce []))
  | "with_no_auth" => some (.construct (.httpAuth word (some .noAuth)))
  | "with_no_broker_auth" => some (.construct (.brokerAuth word (some .noAuth)))
  | "with_ssl" => some (.construct (.ssl nothing))
  | "with_idempotence" => some (.construct (.tune (.idempotence (.bool true))))
  | "with_json_options" => some (.construct (.jsonOptions []))
  | _ => none

/-- The arguments that a call cannot do without. -/
def required : List (String × List String) :=
  [("api_resource", ["path"]), ("topic", ["name"]), ("produce_batch", ["messages"]),
    ("consume_batch", ["message_count"]), ("with_timeout", ["timeout"]),
    ("with_header", ["name", "value"]), ("with_headers", ["headers"]),
    ("with_query_param", ["name", "value"]), ("with_basic_auth", ["username", "password"]),
    ("with_bearer_token", ["token"]), ("with_api_key", ["value"]),
    ("with_custom_header", ["name", "value"]), ("with_custom_headers", ["headers"]),
    ("with_oauth2", ["token_url", "client_id", "client_secret"]),
    ("with_oauth2_config", ["oauth2"]), ("with_certificate", ["cert_path"]),
    ("with_auth", ["config"]), ("with_bootstrap_servers", ["servers"]),
    ("with_sasl_plain", ["username", "password"]),
    ("with_sasl_scram_256", ["username", "password"]),
    ("with_sasl_scram_512", ["username", "password"]),
    ("with_mutual_tls", ["certificate_location", "key_location"]),
    ("with_broker_auth", ["config"]), ("with_key", ["key"]), ("with_partition", ["partition"]),
    ("with_timestamp", ["timestamp"]), ("with_compression", ["compression"]),
    ("with_acks", ["acks"]), ("with_batch_size", ["batch_size"]), ("with_linger", ["linger"]),
    ("with_retries", ["retries"]), ("with_producer_tuning", ["tuning"]),
    ("with_group_id", ["group_id"]), ("with_expected_type", ["expected_type"]),
    ("with_auto_offset_reset", ["reset"]), ("save_step", ["name"])]

/-- The type of a part of a scenario that is no call. -/
def partType? (e : Engine) (word : String) : Option String :=
  match word with
  | "state" => some "ScenarioState"
  | "current_step" => some ((e.current.map fun step => step.variant.name).getD "NoneType")
  | "result" => some (if e.result.isSome then "StepResult" else "NoneType")
  | "history" => some "tuple"
  | "context" => some "ScenarioContext"
  | "settings" => some "Settings"
  | "pool" => some "TransportPool"
  | "executor" => some "StepExecutor"
  | "token_cache" => some "MemoryTokenCache"
  | "token_client" => some "Client"
  | _ => none

def call (e : Engine) (word : String) : Except Fault Call :=
  match call? word, Keyed.get? required word, partType? e word with
  | some c, _, _ => .ok c
  | none, some missing, _ =>
    .error (.wrongType (Engine.typeName ++ "." ++ word ++ "() "
      ++ RecordShape.missingText missing))
  | none, none, some type => .error (.wrongType ("'" ++ type ++ "' object is not callable"))
  | none, none, none =>
    .error (.raised .missingAttribute
      ("'" ++ Engine.typeName ++ "' object has no attribute '" ++ word ++ "'"))

end Word

end Rehearsal
