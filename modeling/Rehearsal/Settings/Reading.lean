import Rehearsal.Auth.Reading
import Rehearsal.Settings
import Rehearsal.Text.Basic
import Rehearsal.Value.Float
import Rehearsal.Value.Order
import Rehearsal.Value.Same

/-!
Settings from the tree that a settings file holds.

An environment named in the tree is laid over the rest of it. A section or a value that is missing or
counts as absent gives way to its default; texts may be given as any scalar.
-/

/-!
One tree of settings laid over another: where both have a mapping the entries are merged, elsewhere
the upper tree wins.
-/

namespace Rehearsal.Value

mutual

def overlaid (base upper : Value) : Value :=
  match upper with
  | .map entries =>
    match base with
    | .map below => .map (overlaidEntries below entries)
    | _ => .map entries
  | upper => upper

/-- Entries with those of another mapping laid over them; a key keeps the place it has. -/
def overlaidEntries (below : List (Value × Value)) : List (Value × Value) → List (Value × Value)
  | [] => below
  | (key, value) :: rest =>
    let merged := overlaid ((lookup? below key).getD .null) value
    overlaidEntries (insert key merged below) rest

end

end Rehearsal.Value

namespace Rehearsal.Settings

/-! Sections and their values. -/

abbrev Section := List (Value × Value)

def sectionOf (raw : Section) (name : String) : Except Fault Section :=
  match (Value.fieldIn? name raw).getD .null with
  | .map entries => .ok entries
  | value =>
    if value.truthy then .error (.configuration (.sectionNotMapping name)) else .ok []

/-- A text under a key, or the default if none that counts is there. -/
def textOf (entries : Section) (name default : String) : Except Fault String :=
  match Value.fieldIn? name entries with
  | some value => if value.truthy then value.displayChecked else .ok default
  | none => .ok default

/-- Whether a text switches something on. -/
def saysOn (text : String) : Bool := ["true", "1", "yes", "on"].contains (Text.lower (Text.trim text))

/-- Whether a value switches something on. -/
def isOn : Value → Except Fault Bool
  | .bool b => .ok b
  | value => value.displayChecked.map saysOn

def flagOf (entries : Section) (name : String) (default : Bool) : Except Fault Bool :=
  match Value.fieldIn? name entries with
  | some value => isOn value
  | none => .ok default

/-- Default headers as texts; of two with one name the last wins. -/
def headersOf (entries : Section) : Except Fault (List (String × String)) := do
  let given ← AuthReading.entriesOf
    (AuthReading.orEmpty (Value.fieldIn? "default_headers" entries) (.map []))
  if (Value.map given).holdsLong then throw Json.tooLong
  else return given.foldl (fun made entry => Keyed.put made entry.1.display entry.2.display) []

def timeoutOf (entries : Section) : Except Fault Binary64 :=
  ((Value.fieldIn? "timeout" entries).getD (.float (Binary64.ofNat 30))).toFloat

def httpOf (entries : Section) : Except Fault HttpSettings := do
  let baseUrl ← textOf entries "base_url" ""
  let timeout ← timeoutOf entries
  let headers ← headersOf entries
  let verifyTls ← flagOf entries "verify_tls" true
  let auth ← AuthReading.http ((Value.fieldIn? "authentication" entries).getD .null)
  return { baseUrl := baseUrl, timeout := timeout, defaultHeaders := headers, verifyTls := verifyTls
           auth := auth }

def brokerOf (entries : Section) : Except Fault BrokerSettings := do
  let bootstrapServers ← textOf entries "bootstrap_servers" "localhost:9092"
  let groupId ← textOf entries "group_id" "assured-consumer"
  let clientIdStem ← textOf entries "client_id_prefix" "assured"
  let auth ← AuthReading.broker ((Value.fieldIn? "authentication" entries).getD .null)
  return ⟨bootstrapServers, groupId, clientIdStem, auth⟩

def reportOf (entries : Section) : Except Fault ExportSettings :=
  (flagOf entries "console" false).map fun console =>
    ⟨(Value.fieldIn? "json_path" entries).getD .null, console⟩

/-- A failure to make sense of a value, told as one of the settings. -/
def invalid (fault : Fault) : Fault :=
  if fault.kind.isA .wrongType || fault.kind.isA .badValue then
    .configuration (.invalidSettings fault.message)
  else fault

/-- The environments in which one is looked up, if a value can be looked into for it. -/
def knownIn (environments : Value) (name : String) : Except Fault Section :=
  match environments with
  | .map entries => .ok entries
  | .text s =>
    if Text.holds s name then
      .error (.wrongType "string indices must be integers, not 'str'")
    else .ok (s.toList.map fun c => (.text (String.ofList [c]), .null))
  | .list items =>
    if items.any fun item => item.same (.text name) then
      .error (.wrongType "list indices must be integers or slices, not str")
    else .ok (items.map fun item => (item, .null))
  | value =>
    .error (.wrongType ("argument of type '" ++ value.qualifiedTypeName ++ "' is not iterable"))

/-- The tree with an environment laid over it. -/
def within (raw : Section) (environment : String) : Except Fault Section := do
  let environments := AuthReading.orEmpty (Value.fieldIn? "environments" raw) (.map [])
  let known ← knownIn environments environment
  match Value.fieldIn? environment known with
  | none =>
    let names ← Value.sortBy id (known.map (·.1))
    let shown ← (Value.list names).shownChecked
    .error (.configuration (.unknownEnvironment environment shown))
  | some upper => return Value.overlaidEntries raw (← AuthReading.entriesOf upper)

/-- The root of a tree, with an environment laid over it if one is named. -/
def rooted (raw : Value) (environment : Option String) : Except Fault Section :=
  match raw with
  | .map raw =>
    match environment.filter (· != "") with
    | some name => within raw name
    | none => .ok raw
  | value => .error (.configuration (.rootNotMapping value.typeName))

/-- The settings that the sections of a tree describe. -/
def ofSections (raw : Section) (environment : Option String) : Except Fault Settings := do
  let http ← sectionOf raw "http"
  let broker ← sectionOf raw "broker"
  let report ← sectionOf raw "export"
  let sections : Except Fault (HttpSettings × BrokerSettings) := do
    return (← httpOf http, ← brokerOf broker)
  let (http, broker) ← sections.mapError invalid
  return { http := http, broker := broker, report := ← reportOf report, environment := environment
           source := none }

def ofValue (raw : Value) (environment : Option String) : Except Fault Settings := do
  ofSections (← rooted raw environment) environment

end Rehearsal.Settings
