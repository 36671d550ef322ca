import Rehearsal.Auth.Config
import Rehearsal.Record
import Rehearsal.Value.Written

/-!
Authentication as a settings file writes it: a mapping with a type and one block per variant.
-/

namespace Rehearsal.AuthReading

def basicShape : RecordShape := ⟨"BasicAuth", ["username", "password"], []⟩

def bearerShape : RecordShape := ⟨"BearerAuth", ["token"], ["prefix"]⟩

def apiKeyShape : RecordShape := ⟨"ApiKeyAuth", ["value"], ["name", "location"]⟩

def oauth2Shape : RecordShape :=
  ⟨"OAuth2Auth", ["token_url", "client_id", "client_secret"],
    ["grant_type", "scopes", "username", "password", "refresh_token", "authorization_code",
      "redirect_uri", "additional_parameters"]⟩

def certificateShape : RecordShape := ⟨"ClientCertificate", ["cert_path"], ["key_path", "password"]⟩

def saslPlainShape : RecordShape := ⟨"SaslPlainAuth", ["username", "password"], ["use_ssl"]⟩

def saslScramShape : RecordShape := ⟨"SaslScramAuth", ["username", "password"], ["use_ssl"]⟩

def sslShape : RecordShape :=
  ⟨"SslAuth", [],
    ["ca_location", "certificate_location", "key_location", "key_password", "enable_verification"]⟩

abbrev Entries := List (Value × Value)

abbrev Given := List (String × Value)

/-- The value given for a field, else its default. -/
def Given.get (given : Given) (name : String) (default : Value) : Value :=
  ((given.find? (·.1 == name)).map (·.2)).getD default

/-- The block under a key, which is null or a mapping. -/
def block (raw : Entries) (key : String) : Except Fault (Option Entries) :=
  match Value.fieldIn? key raw with
  | none => .ok none
  | some .null => .ok none
  | some (.map entries) => .ok (some entries)
  | some value => .error (.configuration (.blockNotMapping key value.typeName))

/-- The credentials that a block builds, if there is a block. -/
def build {α : Type} (shape : RecordShape) (where_ : String) (make : Given → α) :
    Option Entries → Except Fault (Option α)
  | none => .ok none
  | some entries =>
    match shape.bind entries with
    | .ok given => .ok (some (make given))
    | .error why => .error (.configuration (.invalidBlock where_ why))

def Entries.put (entries : Entries) (name : String) (value : Value) : Entries :=
  match entries with
  | [] => [(.text name, value)]
  | entry :: rest =>
    if entry.1.text? = some name then (entry.1, value) :: rest else entry :: put rest name value

def basicOf (given : Given) : BasicAuth := ⟨given.get "username" .null, given.get "password" .null⟩

def bearerOf (given : Given) : BearerAuth :=
  ⟨given.get "token" .null, given.get "prefix" (.text "Bearer")⟩

def apiKeyOf (given : Given) : ApiKeyAuth :=
  ⟨given.get "value" .null, given.get "name" (.text "X-API-Key"),
    given.get "location" (.text "header")⟩

def certificateOf (given : Given) : ClientCertificate :=
  ⟨given.get "cert_path" .null, given.get "key_path" .null, given.get "password" .null⟩

def saslOf (given : Given) : SaslAuth :=
  ⟨given.get "username" .null, given.get "password" .null, given.get "use_ssl" (.bool true)⟩

def sslOf (given : Given) : SslAuth :=
  ⟨given.get "ca_location" .null, given.get "certificate_location" .null,
    given.get "key_location" .null, given.get "key_password" .null,
    given.get "enable_verification" (.bool true)⟩

/-- The items a value is made of when it is listed: characters, elements or keys. -/
def elements (value : Value) : Except Fault (List Value) :=
  match value with
  | .text s => .ok (s.toList.map fun c => .text (String.ofList [c]))
  | .list items => .ok items
  | .tuple items => .ok items
  | .map entries => .ok (entries.map (·.1))
  | .bytes bytes => .ok (bytes.map fun b => .int b.toNat)
  | value => .error (.wrongType ("'" ++ value.qualifiedTypeName ++ "' object is not iterable"))

/-- The entries of a value that should be a mapping. -/
def entriesOf (value : Value) : Except Fault Entries :=
  match value with
  | .map entries => .ok entries
  | value =>
    .error (.raised .missingAttribute
      ("'" ++ value.qualifiedTypeName ++ "' object has no attribute 'items'"))

/-- A value if it counts as present, else an empty list of its kind. -/
def orEmpty (value : Option Value) (empty : Value) : Value :=
  match value with
  | some value => if value.truthy then value else empty
  | none => empty

/-- The OAuth2 block with its grant known, its scopes listed and its parameters paired. -/
structure OAuth2Block where
  entries : Entries
  grant : Grant
  scopes : List Value
  additional : Entries

def grantOf (entries : Entries) : Except Fault Grant :=
  match Value.fieldIn? "grant_type" entries with
  | none => .ok .clientCredentials
  | some value =>
    match Grant.ofValue value with
    | .ok grant => .ok grant
    | .error _ => value.shownChecked.bind fun shown => .error (.configuration (.unknownGrant shown))

def scopesOf (entries : Entries) : Except Fault (List Value) :=
  elements (orEmpty (Value.fieldIn? "scopes" entries) (.list []))

def additionalOf (entries : Entries) : Except Fault Entries :=
  entriesOf (orEmpty (Value.fieldIn? "additional_parameters" entries) (.map []))

def oauth2Block (entries : Entries) : Except Fault OAuth2Block :=
  return ⟨entries, ← grantOf entries, ← scopesOf entries, ← additionalOf entries⟩

def oauth2Of (parts : OAuth2Block) (given : Given) : OAuth2Auth :=
  { tokenUrl := given.get "token_url" .null
    clientId := given.get "client_id" .null
    clientSecret := given.get "client_secret" .null
    grant := parts.grant
    scopes := parts.scopes
    username := given.get "username" .null
    password := given.get "password" .null
    refreshToken := given.get "refresh_token" .null
    authorizationCode := given.get "authorization_code" .null
    redirectUri := given.get "redirect_uri" .null
    additional := parts.additional }

/-- The entries of an authentication section; nothing if the section counts as absent. -/
def section? (raw : Value) : Except Fault (Option Entries) :=
  if !raw.truthy then .ok none
  else
    match raw with
    | .map entries => .ok (some entries)
    | value =>
      .error (.raised .missingAttribute
        ("'" ++ value.qualifiedTypeName ++ "' object has no attribute 'get'"))

/-- The text of a type entry, in lower case. -/
def typeText (raw : Entries) : Except Fault String :=
  ((Value.fieldIn? "type" raw).getD (.text "none")).displayChecked.map Text.lower

/-- How messages show the type entry. -/
def typeShown (raw : Entries) : String := ((Value.fieldIn? "type" raw).getD .null).shown

/-- The type that an authentication is of, among those that are known. -/
def typeOf {α : Type} (ofText? : String → Option α) (unknown : String → Misconfiguration)
    (raw : Entries) : Except Fault α := do
  match ofText? (← typeText raw) with
  | some type => return type
  | none => throw (.configuration (unknown (typeShown raw)))

/-- A block of an API key with its place checked and in lower case. -/
def placedKey (entries : Entries) : Except Fault Entries :=
  match Value.fieldIn? "location" entries with
  | none => .ok entries
  | some value => do
    let location ← KeyLocation.ofText (Text.lower (← value.displayChecked))
    return Entries.put entries "location" (.text location.text)

/-- The headers of a block, its entries as texts. -/
def customHeaders (entries : Entries) : Except Fault CustomHeaderAuth :=
  if (Value.map entries).holdsLong then .error Json.tooLong else .ok (.ofEntries entries)

/-- What is made of the block under a key, if there is one. -/
def blockAs {α : Type} (make : Entries → Except Fault α) (raw : Entries) (key : String) :
    Except Fault (Option α) := do
  match ← block raw key with
  | none => return none
  | some entries => return some (← make entries)

def httpConfig (raw : Entries) (type : HttpAuthType) (apiKey : Option Entries)
    (customHeader : Option CustomHeaderAuth) (oauth2 : Option OAuth2Block) :
    Except Fault HttpAuthConfig := do
  let basic ← build basicShape "basic" basicOf (← block raw "basic")
  let bearer ← build bearerShape "bearer" bearerOf (← block raw "bearer")
  let apiKey ← build apiKeyShape "api_key" apiKeyOf apiKey
  let oauth2 ←
    match oauth2 with
    | none => pure none
    | some parts => build oauth2Shape "oauth2" (oauth2Of parts) (some parts.entries)
  let certificate ← build certificateShape "certificate" certificateOf (← block raw "certificate")
  return ⟨type, basic, bearer, apiKey, customHeader, oauth2, certificate⟩

def http (raw : Value) : Except Fault (Option HttpAuthConfig) := do
  match ← section? raw with
  | none => return none
  | some raw =>
    let type ← typeOf HttpAuthType.ofText? .unknownHttpAuth raw
    let apiKey ← blockAs placedKey raw "api_key"
    let customHeader ← blockAs customHeaders raw "custom_header"
    let oauth2 ← blockAs oauth2Block raw "oauth2"
    return some (← httpConfig raw type apiKey customHeader oauth2)

def broker (raw : Value) : Except Fault (Option BrokerAuthConfig) := do
  match ← section? raw with
  | none => return none
  | some raw =>
    let type ← typeOf BrokerAuthType.ofText? .unknownBrokerAuth raw
    let saslPlain ← build saslPlainShape "sasl_plain" saslOf (← block raw "sasl_plain")
    let saslScram ← build saslScramShape "sasl_scram" saslOf (← block raw "sasl_scram")
    let ssl ← build sslShape "ssl" sslOf (← block raw "ssl")
    return some ⟨type, saslPlain, saslScram, ssl⟩

end Rehearsal.AuthReading
