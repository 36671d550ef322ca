import Rehearsal.Auth.Http
import Rehearsal.Codec
import Rehearsal.Http.Response
import Rehearsal.Number.Binary64
import Rehearsal.Url.Target
import Rehearsal.Value.Float

/-!
Fetching access tokens.

A token is asked for by a form and kept under the identity of the client and the address of the
endpoint; while the kept one is valid, nothing is asked. An answer that carries no token is a
failure of the transport and leaves what is kept alone.
-/

/-!
Access tokens kept until shortly before they expire.

The cache works over any line of time: exact seconds, or the doubles of a real clock. A token
counts as expired five minutes before its end, and an expired token that is asked for leaves the
cache for good.
-/

namespace Rehearsal

class Timeline (T : Type) where
  after : T → T → T
  ofSeconds : Nat → T
  isBefore : T → T → Bool

instance : Timeline Binary64 := ⟨Binary64.add, Binary64.ofNat, Binary64.less⟩

instance : Timeline Rat := ⟨(· + ·), fun n => (n : Rat), fun a b => a < b⟩

/-- Seconds before its end from which a token counts as expired. -/
def expiryBuffer : Nat := 300

structure CachedToken (T α : Type) where
  access : α
  expires : T
  type : String
  deriving Repr

def CachedToken.isValid {T α : Type} [Timeline T] (token : CachedToken T α) (now : T) : Bool :=
  Timeline.isBefore (Timeline.after now (Timeline.ofSeconds expiryBuffer)) token.expires

/-- Tokens under keys; a key occurs once. -/
structure TokenCache (T α : Type) where
  entries : List (String × CachedToken T α)
  deriving Repr

namespace TokenCache

variable {T α : Type}

def empty : TokenCache T α := ⟨[]⟩

def keyFor (clientId tokenUrl : String) : String := "oauth2:" ++ clientId ++ ":" ++ tokenUrl

def lookup? (cache : TokenCache T α) (key : String) : Option (CachedToken T α) :=
  (cache.entries.find? fun entry => entry.1 == key).map (·.2)

def remove (cache : TokenCache T α) (key : String) : TokenCache T α :=
  ⟨cache.entries.filter fun entry => entry.1 != key⟩

def put [Timeline T] (cache : TokenCache T α) (now : T) (key : String) (access : α) (lifetime : T)
    (type : String) : TokenCache T α :=
  ⟨(key, ⟨access, Timeline.after now lifetime, type⟩) :: (cache.remove key).entries⟩

def get [Timeline T] (cache : TokenCache T α) (now : T) (key : String) :
    Option (CachedToken T α) × TokenCache T α :=
  match cache.lookup? key with
  | none => (none, cache)
  | some token => if token.isValid now then (some token, cache) else (none, cache.remove key)

end TokenCache

end Rehearsal

namespace Rehearsal

/-! Asking an endpoint for tokens. -/

structure TokenRequest where
  method : String
  url : String
  accept : String
  form : List (String × String)
  deriving DecidableEq, Repr

structure TokenService where
  cache : TokenCache Binary64 Value
  endpoint : Endpoint TokenRequest Answer
  clock : Binary64

namespace OAuth2Auth

/-- The lifetime of a token whose answer declares none. -/
def defaultLifetime : Int := 3600

def cacheKey (auth : OAuth2Auth) : String :=
  TokenCache.keyFor auth.clientId.display auth.tokenUrl.display

/-- Texts with blanks between; other values are refused. -/
def scopeText (scopes : List Value) : Except Fault String := do
  let parts ← scopes.zipIdx.mapM fun (scope, i) =>
    match scope.text? with
    | some s => pure s
    | none =>
      throw (.wrongType ("sequence item " ++ toString i ++ ": expected str instance, "
        ++ scope.qualifiedTypeName ++ " found"))
  return String.intercalate " " parts

def scopeFields (auth : OAuth2Auth) : Except Fault (List (Value × Value)) :=
  if auth.scopes.isEmpty then .ok []
  else (scopeText auth.scopes).map fun s => [(.text "scope", .text s)]

/-- The fields that a grant adds to the form. -/
def grantForm (auth : OAuth2Auth) : List (Value × Value) :=
  match auth.grant with
  | .clientCredentials => []
  | .password => [(.text "username", auth.username), (.text "password", auth.password)]
  | .refreshToken => [(.text "refresh_token", auth.refreshToken)]
  | .authorizationCode =>
    (.text "code", auth.authorizationCode)
      :: (if auth.redirectUri.truthy then [(.text "redirect_uri", auth.redirectUri)] else [])

/-- The form that asks for a token; additional parameters replace fields of their name. -/
def formFields (auth : OAuth2Auth) : Except Fault (List (Value × Value)) := do
  let scopes ← scopeFields auth
  let fields : List (Value × Value) :=
    [(.text "grant_type", .text auth.grant.text), (.text "client_id", auth.clientId),
      (.text "client_secret", auth.clientSecret)] ++ scopes ++ grantForm auth
  return auth.additional.foldl (fun made entry => Value.insert entry.1 entry.2 made) fields

def formValue : Value → String
  | .null => ""
  | .bool b => if b then "true" else "false"
  | value => value.display

/-- Names and texts of a form; a list stands for several values of one name. -/
def formTexts (fields : List (Value × Value)) : List (String × String) :=
  fields.flatMap fun (name, value) =>
    match value.items? with
    | some items => items.map fun item => (name.display, formValue item)
    | none => [(name.display, formValue value)]

def request (auth : OAuth2Auth) : Except Fault TokenRequest := do
  let fields ← auth.formFields
  match Url.Target.ofText auth.tokenUrl.display with
  | .error flaw => .error (.raised .invalidUrl flaw.message)
  | .ok target => return ⟨"POST", target.text, "application/json", formTexts fields⟩

/-- The token and the lifetime that an answer carries. -/
def readAnswer (url : String) : Answer → Except Fault (Value × Binary64)
  | .timedOut why => .error (.transport (.tokenRequest url why))
  | .failed why => .error (.transport (.tokenRequest url why))
  | .unfinished => .error (.transport (.tokenRequest url ""))
  | .response r =>
    if 400 ≤ r.status then .error (.transport (.tokenStatus url r.status))
    else
      match (Codec.decodeText (Utf8.dropMark r.body)).bind Codec.readJson with
      | .error _ => .error (.transport (.tokenNotJson url))
      | .ok (.map fields) =>
        let access := (Value.fieldIn? "access_token" fields).getD .null
        if !access.truthy then .error (.transport (.tokenMissing url))
        else
          let given := (Value.fieldIn? "expires_in" fields).getD .null
          let lifetime := if given.truthy then given else .int defaultLifetime
          match lifetime.toFloat with
          | .ok seconds => .ok (access, seconds)
          | .error fault =>
            if fault.kind.isA .wrongType || fault.kind.isA .badValue then
              .error (.transport (.tokenLifetime url lifetime.shown))
            else .error fault
      | .ok _ => .error (.transport (.tokenMissing url))

/-- The token for a client, from the cache or from the endpoint. -/
def token (auth : OAuth2Auth) (service : TokenService) : Except Fault Value × TokenService :=
  match service.cache.get service.clock auth.cacheKey with
  | (some token, cache) => (.ok token.access, { service with cache := cache })
  | (none, cache) =>
    let service := { service with cache := cache }
    match auth.request with
    | .error fault => (.error fault, service)
    | .ok request =>
      let (answer, endpoint) := service.endpoint.ask request
      let service := { service with endpoint := endpoint }
      match readAnswer auth.tokenUrl.display answer with
      | .error fault => (.error fault, service)
      | .ok (access, lifetime) =>
        (.ok access, { service with
          cache := service.cache.put service.clock auth.cacheKey access lifetime "Bearer" })

end OAuth2Auth

/-- A request with a strategy applied to it; only one that fetches tokens may fail. -/
def HttpStrategy.authorize (strategy : HttpStrategy) (request : Request) (service : TokenService) :
    Except Fault Request × TokenService :=
  match strategy with
  | .oauth2 auth =>
    match auth.token service with
    | (.ok access, service) => (.ok (strategy.applyTo access request), service)
    | (.error fault, service) => (.error fault, service)
  | strategy => (.ok (strategy.applyTo .null request), service)

end Rehearsal
