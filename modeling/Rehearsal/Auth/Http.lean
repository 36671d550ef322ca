import Rehearsal.Auth.Config
import Rehearsal.Text.Base64
import Rehearsal.Text.Basic
import Rehearsal.Text.Utf8

/-!
What an HTTP authentication does to a request.

A configuration resolves to a strategy once, when its credentials are checked. All strategies but
the one that fetches tokens are functions on requests: each sets its own headers or parameter, or
the client certificate, and leaves the rest alone.
-/

namespace Rehearsal

/-- A credential that must not be null or blank. -/
def required (value : Value) (field auth : String) : Except Fault Value :=
  match value with
  | .null => .error (.configuration (.blankField auth field))
  | value =>
    if Text.isBlankText value.display then .error (.configuration (.blankField auth field))
    else .ok value

inductive HttpStrategy where
  | noAuth
  | basic (username password : Value)
  | bearer (token scheme : Value)
  | apiKey (name value : Value) (location : KeyLocation)
  | customHeaders (headers : List (String × Value))
  | oauth2 (payload : OAuth2Auth)
  | certificate (cert : ClientCertificate)
  deriving Repr, Inhabited

namespace HttpStrategy

def name : HttpStrategy → String
  | .noAuth => "NoAuthStrategy"
  | .basic .. => "BasicAuthStrategy"
  | .bearer .. => "BearerTokenStrategy"
  | .apiKey .. => "ApiKeyStrategy"
  | .customHeaders _ => "CustomHeaderStrategy"
  | .oauth2 _ => "OAuth2Strategy"
  | .certificate _ => "CertificateStrategy"

/-- The credentials of the selected variant, which must be there. -/
def payload {α : Type} (auth block : String) (given : Option α) : Except Fault α :=
  match given with
  | some payload => .ok payload
  | none => .error (.configuration (.missingBlock auth block))

def ofBasic (auth : BasicAuth) : Except Fault HttpStrategy := do
  let username ← required auth.username "username" "Basic"
  let password ← required auth.password "password" "Basic"
  return .basic username password

def ofBearer (auth : BearerAuth) : Except Fault HttpStrategy := do
  let token ← required auth.token "token" "Bearer"
  return .bearer token (if auth.scheme.truthy then auth.scheme else .text "Bearer")

def ofApiKey (auth : ApiKeyAuth) : Except Fault HttpStrategy := do
  let name ← required auth.name "name" "API key"
  let value ← required auth.value "value" "API key"
  let location ← KeyLocation.ofValue auth.location
  return .apiKey name value location

def checkNames : List (String × Value) → Except Fault Unit
  | [] => .ok ()
  | (name, _) :: rest =>
    match required (.text name) "header name" "Custom header" with
    | .error fault => .error fault
    | .ok _ => checkNames rest

def ofCustomHeaders (auth : CustomHeaderAuth) : Except Fault HttpStrategy :=
  if auth.headers.isEmpty then .error (.configuration .noCustomHeader)
  else (checkNames auth.headers).map fun _ => .customHeaders auth.headers

/-- The fields a grant needs beyond the identity of the client. -/
def grantFields (auth : OAuth2Auth) : List (String × Value) :=
  match auth.grant with
  | .clientCredentials => []
  | .password => [("username", auth.username), ("password", auth.password)]
  | .refreshToken => [("refresh_token", auth.refreshToken)]
  | .authorizationCode => [("authorization_code", auth.authorizationCode)]

def checkFields (auth : String) : List (String × Value) → Except Fault Unit
  | [] => .ok ()
  | (name, value) :: rest =>
    match required value name auth with
    | .error fault => .error fault
    | .ok _ => checkFields auth rest

def ofOAuth2 (auth : OAuth2Auth) : Except Fault HttpStrategy := do
  checkFields "OAuth2" [("token_url", auth.tokenUrl), ("client_id", auth.clientId),
    ("client_secret", auth.clientSecret)]
  checkFields ("OAuth2 " ++ auth.grant.text) (grantFields auth)
  return .oauth2 auth

def ofCertificate (cert : ClientCertificate) : Except Fault HttpStrategy := do
  let _ ← required cert.certPath "cert_path" "Certificate"
  return .certificate cert

def resolve : Option HttpAuthConfig → Except Fault HttpStrategy
  | none => .ok .noAuth
  | some config =>
    match config.type with
    | .none => .ok .noAuth
    | .basic => (payload "BASIC" "basic" config.basic).bind ofBasic
    | .bearer => (payload "BEARER" "bearer" config.bearer).bind ofBearer
    | .apiKey => (payload "API_KEY" "api_key" config.apiKey).bind ofApiKey
    | .customHeader =>
      (payload "CUSTOM_HEADER" "custom_header" config.customHeader).bind ofCustomHeaders
    | .oauth2 => (payload "OAUTH2" "oauth2" config.oauth2).bind ofOAuth2
    | .certificate => (payload "CERTIFICATE" "certificate" config.certificate).bind ofCertificate
    | .unknown text => .error (.configuration (.unsupportedHttpAuth (Text.quoted text)))

/-- The header value of basic authentication. -/
def basicHeader (username password : String) : String :=
  "Basic " ++ Base64.encode (Utf8.encode (username ++ ":" ++ password))

def bearerHeader (scheme token : String) : String := scheme ++ " " ++ token

/-- What a strategy does to a request, given the access token if it needs one. -/
def applyTo (strategy : HttpStrategy) (token : Value) (request : Request) : Request :=
  match strategy with
  | .noAuth => request
  | .basic username password =>
    request.setHeader "Authorization" (.text (basicHeader username.display password.display))
  | .bearer token scheme =>
    request.setHeader "Authorization" (.text (bearerHeader scheme.display token.display))
  | .apiKey name value .query => request.setParam name.display value
  | .apiKey name value .header => request.setHeader name.display value
  | .customHeaders headers => { request with headers := request.headers.setAll headers }
  | .oauth2 _ => request.setHeader "Authorization" (.text (bearerHeader "Bearer" token.display))
  | .certificate cert => { request with certificate := some cert }

end HttpStrategy

end Rehearsal
