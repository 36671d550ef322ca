import Rehearsal.Auth.Config

/-!
What a run is configured with: where requests and messages go by default, how they authenticate, and
where reports are written.
-/

namespace Rehearsal

structure HttpSettings where
  baseUrl : String := ""
  timeout : Binary64 := Binary64.ofNat 30
  defaultHeaders : List (String × String) := []
  verifyTls : Bool := true
  auth : Option HttpAuthConfig := none
  deriving Repr, Inhabited

structure BrokerSettings where
  bootstrapServers : String := "localhost:9092"
  groupId : String := "assured-consumer"
  clientIdStem : String := "assured"
  auth : Option BrokerAuthConfig := none
  deriving Repr, Inhabited

structure ExportSettings where
  jsonPath : Value := .null
  console : Bool := false
  deriving Repr, Inhabited

structure Settings where
  http : HttpSettings := {}
  broker : BrokerSettings := {}
  report : ExportSettings := {}
  environment : Option String := none
  source : Option String := none
  deriving Repr, Inhabited

namespace Settings

def httpFields (s : HttpSettings) : Value :=
  .ofFields [("base_url", .text s.baseUrl), ("timeout", .float s.timeout),
    ("default_headers", .ofPairs (s.defaultHeaders.map fun (name, text) => (name, .text text))),
    ("verify_tls", .bool s.verifyTls), ("auth", .ofOption HttpAuthConfig.fields s.auth)]

def brokerFields (s : BrokerSettings) : Value :=
  .ofFields [("bootstrap_servers", .text s.bootstrapServers), ("group_id", .text s.groupId),
    ("client_id_prefix", .text s.clientIdStem), ("auth", .ofOption BrokerAuthConfig.fields s.auth)]

def fields (s : Settings) : Value :=
  .ofFields [("http", httpFields s.http), ("broker", brokerFields s.broker),
    ("export", .ofFields [("json_path", s.report.jsonPath), ("console", .bool s.report.console)]),
    ("environment", .ofOption .text s.environment), ("source", .ofOption .text s.source)]

end Settings

end Rehearsal
