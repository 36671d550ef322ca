import Rehearsal.Fault
import Rehearsal.Http.Request

/-!
How requests and broker clients authenticate: one selected variant and the blocks that carry the
credentials of each.

Credentials come from calls or from a settings file, where a user may write any scalar, so they are
values and become text where they are used.
-/

namespace Rehearsal

inductive HttpAuthType where
  | none
  | basic
  | bearer
  | apiKey
  | customHeader
  | oauth2
  | certificate
  | unknown (text : String)
  deriving DecidableEq, Repr, Inhabited

namespace HttpAuthType

def text : HttpAuthType → String
  | .none => "none"
  | .basic => "basic"
  | .bearer => "bearer"
  | .apiKey => "api_key"
  | .customHeader => "custom_header"
  | .oauth2 => "oauth2"
  | .certificate => "certificate"
  | .unknown text => text

def known : List HttpAuthType :=
  [.none, .basic, .bearer, .apiKey, .customHeader, .oauth2, .certificate]

def ofText? (s : String) : Option HttpAuthType := known.find? (·.text == s)

end HttpAuthType

inductive BrokerAuthType where
  | none
  | saslPlain
  | saslScram256
  | saslScram512
  | ssl
  | mutualTls
  | unknown (text : String)
  deriving DecidableEq, Repr, Inhabited

namespace BrokerAuthType

def text : BrokerAuthType → String
  | .none => "none"
  | .saslPlain => "sasl_plain"
  | .saslScram256 => "sasl_scram_256"
  | .saslScram512 => "sasl_scram_512"
  | .ssl => "ssl"
  | .mutualTls => "mutual_tls"
  | .unknown text => text

def known : List BrokerAuthType :=
  [.none, .saslPlain, .saslScram256, .saslScram512, .ssl, .mutualTls]

def ofText? (s : String) : Option BrokerAuthType := known.find? (·.text == s)

/-- Whether a variant signs in with a name and a password. -/
def isSasl : BrokerAuthType → Bool
  | .saslPlain => true
  | .saslScram256 => true
  | .saslScram512 => true
  | _ => false

end BrokerAuthType

inductive KeyLocation where
  | header
  | query
  deriving DecidableEq, Repr, Inhabited

def KeyLocation.text : KeyLocation → String
  | .header => "header"
  | .query => "query"

def KeyLocation.ofText (s : String) : Except Fault KeyLocation :=
  if s = "header" then .ok .header
  else if s = "query" then .ok .query
  else .error (.badValue (Text.quoted s ++ " is not a valid ApiKeyLocation"))

def KeyLocation.ofValue (value : Value) : Except Fault KeyLocation :=
  match value.text? with
  | some s => KeyLocation.ofText s
  | none => .error (.badValue (value.shown ++ " is not a valid ApiKeyLocation"))

inductive Grant where
  | clientCredentials
  | password
  | refreshToken
  | authorizationCode
  deriving DecidableEq, Repr, Inhabited

namespace Grant

def text : Grant → String
  | .clientCredentials => "client_credentials"
  | .password => "password"
  | .refreshToken => "refresh_token"
  | .authorizationCode => "authorization_code"

def ofText? (s : String) : Option Grant :=
  [.clientCredentials, .password, .refreshToken, .authorizationCode].find? (·.text == s)

def ofValue (value : Value) : Except Fault Grant :=
  match value.text?.bind ofText? with
  | some grant => .ok grant
  | none => .error (.badValue (value.shown ++ " is not a valid OAuth2GrantType"))

end Grant

structure BasicAuth where
  username : Value
  password : Value
  deriving Repr, Inhabited

structure BearerAuth where
  token : Value
  scheme : Value
  deriving Repr, Inhabited

structure ApiKeyAuth where
  value : Value
  name : Value
  location : Value
  deriving Repr, Inhabited

structure CustomHeaderAuth where
  headers : List (String × Value)
  deriving Repr, Inhabited

/-- Custom headers whose names and values are the texts of these entries. -/
def CustomHeaderAuth.ofEntries (entries : List (Value × Value)) : CustomHeaderAuth :=
  ⟨entries.map fun (key, value) => (key.display, .text value.display)⟩

structure OAuth2Auth where
  tokenUrl : Value
  clientId : Value
  clientSecret : Value
  grant : Grant
  scopes : List Value
  username : Value
  password : Value
  refreshToken : Value
  authorizationCode : Value
  redirectUri : Value
  additional : List (Value × Value)
  deriving Repr, Inhabited

structure SaslAuth where
  username : Value
  password : Value
  useSsl : Value
  deriving Repr, Inhabited

structure SslAuth where
  caLocation : Value
  certificateLocation : Value
  keyLocation : Value
  keyPassword : Value
  enableVerification : Value
  deriving Repr, Inhabited

structure HttpAuthConfig where
  type : HttpAuthType
  basic : Option BasicAuth := none
  bearer : Option BearerAuth := none
  apiKey : Option ApiKeyAuth := none
  customHeader : Option CustomHeaderAuth := none
  oauth2 : Option OAuth2Auth := none
  certificate : Option ClientCertificate := none
  deriving Repr, Inhabited

namespace HttpAuthConfig

def ofBasic (username password : Value) : HttpAuthConfig :=
  { type := .basic, basic := some ⟨username, password⟩ }

def ofBearer (token scheme : Value) : HttpAuthConfig :=
  { type := .bearer, bearer := some ⟨token, scheme⟩ }

def ofApiKey (value name : Value) (location : KeyLocation) : HttpAuthConfig :=
  { type := .apiKey, apiKey := some ⟨value, name, .text location.text⟩ }

def ofCustomHeaders (headers : CustomHeaderAuth) : HttpAuthConfig :=
  { type := .customHeader, customHeader := some headers }

def ofOAuth2 (oauth2 : OAuth2Auth) : HttpAuthConfig := { type := .oauth2, oauth2 := some oauth2 }

def ofCertificate (certificate : ClientCertificate) : HttpAuthConfig :=
  { type := .certificate, certificate := some certificate }

def noAuth : HttpAuthConfig := { type := .none }

end HttpAuthConfig

structure BrokerAuthConfig where
  type : BrokerAuthType
  saslPlain : Option SaslAuth := none
  saslScram : Option SaslAuth := none
  ssl : Option SslAuth := none
  deriving Repr, Inhabited

namespace BrokerAuthConfig

def ofPlain (sasl : SaslAuth) (ssl : Option SslAuth) : BrokerAuthConfig :=
  { type := .saslPlain, saslPlain := some sasl, ssl := ssl }

def ofScram256 (sasl : SaslAuth) (ssl : Option SslAuth) : BrokerAuthConfig :=
  { type := .saslScram256, saslScram := some sasl, ssl := ssl }

def ofScram512 (sasl : SaslAuth) (ssl : Option SslAuth) : BrokerAuthConfig :=
  { type := .saslScram512, saslScram := some sasl, ssl := ssl }

def ofSsl (ssl : SslAuth) : BrokerAuthConfig := { type := .ssl, ssl := some ssl }

def ofMutualTls (ssl : SslAuth) : BrokerAuthConfig := { type := .mutualTls, ssl := some ssl }

def noAuth : BrokerAuthConfig := { type := .none }

end BrokerAuthConfig

/-!
Authentication as a value: its type, and for each block its fields or null.
-/

def Value.ofPairs (pairs : List (String × Value)) : Value :=
  .list (pairs.map fun (name, value) => .list [.text name, value])

def ClientCertificate.fields (c : ClientCertificate) : List (String × Value) :=
  [("cert_path", c.certPath), ("key_path", c.keyPath), ("password", c.password)]

namespace HttpAuthConfig

def basicFields (a : BasicAuth) : Value :=
  .ofFields [("username", a.username), ("password", a.password)]

def bearerFields (a : BearerAuth) : Value :=
  .ofFields [("token", a.token), ("prefix", a.scheme)]

def apiKeyFields (a : ApiKeyAuth) : Value :=
  .ofFields [("value", a.value), ("name", a.name), ("location", a.location)]

def customHeaderFields (a : CustomHeaderAuth) : Value :=
  .ofFields [("headers", .ofPairs a.headers)]

def oauth2Fields (a : OAuth2Auth) : Value :=
  .ofFields [("token_url", a.tokenUrl), ("client_id", a.clientId),
    ("client_secret", a.clientSecret), ("grant_type", .text a.grant.text),
    ("scopes", .list a.scopes), ("username", a.username), ("password", a.password),
    ("refresh_token", a.refreshToken), ("authorization_code", a.authorizationCode),
    ("redirect_uri", a.redirectUri),
    ("additional_parameters", .list (a.additional.map fun (name, value) => .list [name, value]))]

def fields (c : HttpAuthConfig) : Value :=
  .ofFields [("type", .text c.type.text), ("basic", .ofOption basicFields c.basic),
    ("bearer", .ofOption bearerFields c.bearer), ("api_key", .ofOption apiKeyFields c.apiKey),
    ("custom_header", .ofOption customHeaderFields c.customHeader),
    ("oauth2", .ofOption oauth2Fields c.oauth2),
    ("certificate", .ofOption (fun c => .ofFields c.fields) c.certificate)]

end HttpAuthConfig

namespace BrokerAuthConfig

def saslFields (a : SaslAuth) : Value :=
  .ofFields [("username", a.username), ("password", a.password), ("use_ssl", a.useSsl)]

def sslFields (a : SslAuth) : Value :=
  .ofFields [("ca_location", a.caLocation), ("certificate_location", a.certificateLocation),
    ("key_location", a.keyLocation), ("key_password", a.keyPassword),
    ("enable_verification", a.enableVerification)]

def fields (c : BrokerAuthConfig) : Value :=
  .ofFields [("type", .text c.type.text), ("sasl_plain", .ofOption saslFields c.saslPlain),
    ("sasl_scram", .ofOption saslFields c.saslScram), ("ssl", .ofOption sslFields c.ssl)]

end BrokerAuthConfig

end Rehearsal
