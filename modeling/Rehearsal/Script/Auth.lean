import Rehearsal.Auth.Config
import Rehearsal.Auth.Reading
import Rehearsal.Script.Value

/-!
Authentication written as JSON: a type, and the blocks of credentials field by field.
-/

namespace Rehearsal.Script

def isGiven (j : Value) : Bool :=
  match j with
  | .null => false
  | _ => true

def block {α : Type} (shape : RecordShape) (make : AuthReading.Given → α) (j : Value) :
    Except Fault (Option α) :=
  match j with
  | .map entries =>
    match shape.bind (entries.map fun (key, value) => (key, read value)) with
    | .ok given => .ok (some (make given))
    | .error why => .error (.wrongType why)
  | _ => .ok none

def oauth2? (j : Value) : Except Fault (Option OAuth2Auth) :=
  if isGiven j then do
    let grant ←
      match field? j "grant_type" with
      | some value => Grant.ofValue (read value)
      | none => pure .clientCredentials
    let parts : AuthReading.OAuth2Block :=
      { entries := [], grant := grant, scopes := (itemsOf (field j "scopes")).map read
        additional := readPairs (field j "additional_parameters") }
    block AuthReading.oauth2Shape (AuthReading.oauth2Of parts) j
  else .ok none

def typeName (j : Value) : String := ((field? j "type").map textOf).getD "none"

def httpAuth? (j : Value) : Except Fault (Option HttpAuthConfig) :=
  if isGiven j then do
    let headers := field j "custom_header"
    return some {
      type := (HttpAuthType.ofText? (typeName j)).getD (.unknown (typeName j))
      basic := ← block AuthReading.basicShape AuthReading.basicOf (field j "basic")
      bearer := ← block AuthReading.bearerShape AuthReading.bearerOf (field j "bearer")
      apiKey := ← block AuthReading.apiKeyShape AuthReading.apiKeyOf (field j "api_key")
      customHeader := if isGiven headers then some ⟨readNamed headers⟩ else none
      oauth2 := ← oauth2? (field j "oauth2")
      certificate :=
        ← block AuthReading.certificateShape AuthReading.certificateOf (field j "certificate") }
  else .ok none

def ssl? (j : Value) : Except Fault (Option SslAuth) :=
  block AuthReading.sslShape AuthReading.sslOf j

def brokerAuth? (j : Value) : Except Fault (Option BrokerAuthConfig) :=
  if isGiven j then do
    return some {
      type := (BrokerAuthType.ofText? (typeName j)).getD (.unknown (typeName j))
      saslPlain := ← block AuthReading.saslPlainShape AuthReading.saslOf (field j "sasl_plain")
      saslScram := ← block AuthReading.saslScramShape AuthReading.saslOf (field j "sasl_scram")
      ssl := ← ssl? (field j "ssl") }
  else .ok none

def httpAuth (auth : Option HttpAuthConfig) : Value := write (.ofOption HttpAuthConfig.fields auth)

def brokerAuth (auth : Option BrokerAuthConfig) : Value :=
  write (.ofOption BrokerAuthConfig.fields auth)

def certificate (cert : Option ClientCertificate) : Value :=
  write (.ofOption (fun cert => .record "ClientCertificate" cert.fields) cert)

def makeHttpAuth (maker : String) (args : Value) : Except Fault (Option HttpAuthConfig) := do
  let arg (i : Nat) (default : Value) : Value := (((itemsOf args)[i]?).map read).getD default
  match maker with
  | "basic_auth" => return some (.ofBasic (arg 0 .null) (arg 1 .null))
  | "bearer_token" => return some (.ofBearer (arg 0 .null) (arg 1 (.text "Bearer")))
  | "api_key_auth" =>
    let location ← KeyLocation.ofValue (arg 2 (.text "header"))
    return some (.ofApiKey (arg 0 .null) (arg 1 (.text "X-API-Key")) location)
  | "custom_headers" =>
    let entries ← AuthReading.entriesOf (arg 0 .null)
    return some (.ofCustomHeaders (.ofEntries entries))
  | "oauth2_auth" => return (← oauth2? (field (itemAt args 0) "$oauth2")).map .ofOAuth2
  | "client_certificate" => return some (.ofCertificate ⟨arg 0 .null, arg 1 .null, arg 2 .null⟩)
  | _ => return some .noAuth

def makeBrokerAuth (maker : String) (args : Value) : Except Fault (Option BrokerAuthConfig) := do
  let arg (i : Nat) (default : Value) : Value := (((itemsOf args)[i]?).map read).getD default
  let sasl : SaslAuth := ⟨arg 0 .null, arg 1 .null, arg 2 (.bool true)⟩
  let ssl (i : Nat) : Except Fault (Option SslAuth) := ssl? (field (itemAt args i) "ssl")
  match maker with
  | "plain" => return some (.ofPlain sasl (← ssl 3))
  | "scram_256" => return some (.ofScram256 sasl (← ssl 3))
  | "scram_512" => return some (.ofScram512 sasl (← ssl 3))
  | "ssl_only" => return (← ssl 0).map .ofSsl
  | "mutual_tls" => return (← ssl 0).map .ofMutualTls
  | _ => return some .noAuth

def anyHttpAuth (j : Value) : Except Fault (Option HttpAuthConfig) :=
  match field? j "dict", field? j "make" with
  | some raw, _ => AuthReading.http (read raw)
  | none, some maker => makeHttpAuth (textOf maker) (field j "args")
  | none, none => httpAuth? (field j "config")

def anyBrokerAuth (j : Value) : Except Fault (Option BrokerAuthConfig) :=
  match field? j "dict", field? j "make" with
  | some raw, _ => AuthReading.broker (read raw)
  | none, some maker => makeBrokerAuth (textOf maker) (field j "args")
  | none, none => brokerAuth? (field j "config")

end Rehearsal.Script
