import Rehearsal.Auth.Http

/-!
What a broker authentication does to the configuration of a client.

Signing in writes the `sasl.*` keys and the security protocol; transport settings write the
`ssl.*` keys and the verification switch. The two share no key, so they may be applied in any order.
-/

namespace Rehearsal

/-- The configuration of a broker client: values under names, a name once. -/
abbrev ClientConfig := List (String × Value)

namespace ClientConfig

def put (config : ClientConfig) (name : String) (value : Value) : ClientConfig :=
  Keyed.put config name value

def putAll (config : ClientConfig) (more : List (String × Value)) : ClientConfig :=
  Keyed.putAll config more

def get? (config : ClientConfig) (name : String) : Option Value := Keyed.get? config name

end ClientConfig

/-- What a strategy writes: sign-in, transport settings, or the transport as the protocol. -/
inductive BrokerStrategy where
  | noAuth
  | saslPlain (username password useSsl : Value)
  | saslScram (username password useSsl : Value) (mechanism : String)
  | overlay (auth : SslAuth)
  | ssl (auth : SslAuth)
  | composite (first second : BrokerStrategy)
  deriving Repr, Inhabited

namespace BrokerStrategy

def name : BrokerStrategy → String
  | .noAuth => "NoAuthStrategy"
  | .saslPlain .. => "SaslPlainStrategy"
  | .saslScram .. => "SaslScramStrategy"
  | .overlay _ => "SslOverlay"
  | .ssl _ => "SslStrategy"
  | .composite .. => "CompositeStrategy"

def parts : BrokerStrategy → Option (List String)
  | .composite first second => some [first.name, second.name]
  | _ => none

/-- Transport settings, whose certificate and key come together or not at all. -/
def ofSsl (auth : SslAuth) (requireCertificate : Bool) : Except Fault SslAuth :=
  if auth.certificateLocation.truthy != auth.keyLocation.truthy then
    .error (.configuration .halfKeyPair)
  else if requireCertificate && !auth.certificateLocation.truthy then
    .error (.configuration .noKeyPair)
  else .ok auth

def ofPlain (auth : SaslAuth) : Except Fault BrokerStrategy := do
  let username ← required auth.username "username" "SASL/PLAIN"
  let password ← required auth.password "password" "SASL/PLAIN"
  return .saslPlain username password auth.useSsl

def ofScram (mechanism : String) (auth : SaslAuth) : Except Fault BrokerStrategy := do
  let username ← required auth.username "username" mechanism
  let password ← required auth.password "password" mechanism
  return .saslScram username password auth.useSsl mechanism

/-- A sign-in with the transport settings that come with it. -/
def withOverlay (strategy : BrokerStrategy) : Option SslAuth → Except Fault BrokerStrategy
  | none => .ok strategy
  | some auth => (ofSsl auth false).map fun auth => .composite strategy (.overlay auth)

def resolve : Option BrokerAuthConfig → Except Fault BrokerStrategy
  | none => .ok .noAuth
  | some config =>
    match config.type with
    | .none =>
      match config.ssl with
      | some auth => (ofSsl auth false).map .overlay
      | none => .ok .noAuth
    | .saslPlain => do
      let auth ← HttpStrategy.payload "SASL_PLAIN" "sasl_plain" config.saslPlain
      withOverlay (← ofPlain auth) config.ssl
    | .saslScram256 => do
      let auth ← HttpStrategy.payload "SASL_SCRAM_256" "sasl_scram" config.saslScram
      withOverlay (← ofScram "SCRAM-SHA-256" auth) config.ssl
    | .saslScram512 => do
      let auth ← HttpStrategy.payload "SASL_SCRAM_512" "sasl_scram" config.saslScram
      withOverlay (← ofScram "SCRAM-SHA-512" auth) config.ssl
    | .ssl => do
      let auth ← HttpStrategy.payload "SSL" "ssl" config.ssl
      return .ssl (← ofSsl auth false)
    | .mutualTls => do
      let auth ← HttpStrategy.payload "MUTUAL_TLS" "ssl" config.ssl
      return .ssl (← ofSsl auth true)
    | .unknown text => .error (.configuration (.unsupportedBrokerAuth (Text.quoted text)))

def signIn (mechanism : String) (username password useSsl : Value) : List (String × Value) :=
  [("security.protocol", .text (if useSsl.truthy then "SASL_SSL" else "SASL_PLAINTEXT")),
    ("sasl.mechanism", .text mechanism), ("sasl.username", username),
    ("sasl.password", password)]

def transport (auth : SslAuth) : List (String × Value) :=
  let ca := if auth.caLocation.truthy then [("ssl.ca.location", auth.caLocation)] else []
  let password :=
    if auth.keyPassword.truthy then [("ssl.key.password", auth.keyPassword)] else []
  let pair :=
    if auth.certificateLocation.truthy && auth.keyLocation.truthy then
      [("ssl.certificate.location", auth.certificateLocation),
        ("ssl.key.location", auth.keyLocation)] ++ password
    else []
  ("enable.ssl.certificate.verification", .bool auth.enableVerification.truthy) :: ca ++ pair

def entries : BrokerStrategy → List (String × Value)
  | .noAuth => []
  | .saslPlain username password useSsl => signIn "PLAIN" username password useSsl
  | .saslScram username password useSsl mechanism => signIn mechanism username password useSsl
  | .overlay auth => transport auth
  | .ssl auth => ("security.protocol", .text "SSL") :: transport auth
  | .composite first second => first.entries ++ second.entries

def applyTo (strategy : BrokerStrategy) (config : ClientConfig) : ClientConfig :=
  config.putAll strategy.entries

end BrokerStrategy

end Rehearsal
