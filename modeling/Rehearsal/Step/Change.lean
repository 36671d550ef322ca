import Rehearsal.Step

/-!
Changed copies of steps.

A change gives one field a new content. Changes are put into the draft of a step, which is then
built anew, so a copy passes the same checks as a step made from scratch. A name that is no field of
the step is refused before anything else.
-/

namespace Rehearsal

inductive StepChange where
  | url (value : Value)
  | method (text : String)
  | body (value : Value)
  | headers (entries : List (Value × Value))
  | queryParams (entries : List (Value × Value))
  | timeout (value : Value)
  | httpAuth (config : Option HttpAuthConfig)
  | brokerAuth (config : Option BrokerAuthConfig)
  | topic (value : Value)
  | value (value : Value)
  | key (value : Value)
  | partition (number : Option Int)
  | timestamp (time : Option Instant)
  | tuning (settings : ProducerTuning)
  | bootstrapServers (text : Option String)
  | jsonOptions (options : List (String × Value))
  | messages (pairs : List (Value × Value))
  | messageCount (count : Int)
  | groupId (text : Option String)
  | expectedType (kind : Option Kind)
  | autoOffsetReset (value : Value)
  | other (name : String)
  deriving Repr, Inhabited

namespace StepChange

def name : StepChange → String
  | .url _ => "url"
  | .method _ => "method"
  | .body _ => "body"
  | .headers _ => "headers"
  | .queryParams _ => "query_params"
  | .timeout _ => "timeout"
  | .httpAuth _ => "auth"
  | .brokerAuth _ => "auth"
  | .topic _ => "topic"
  | .value _ => "value"
  | .key _ => "key"
  | .partition _ => "partition"
  | .timestamp _ => "timestamp"
  | .tuning _ => "tuning"
  | .bootstrapServers _ => "bootstrap_servers"
  | .jsonOptions _ => "json_options"
  | .messages _ => "messages"
  | .messageCount _ => "message_count"
  | .groupId _ => "group_id"
  | .expectedType _ => "expected_type"
  | .autoOffsetReset _ => "auto_offset_reset"
  | .other name => name

def named (entries : List (Value × Value)) : Headers :=
  entries.foldl (fun made entry => Headers.put made entry.1.display entry.2) []

def toHttp (d : HttpDraft) : StepChange → HttpDraft
  | .url v => { d with url := v }
  | .method s => { d with method := s }
  | .body v => { d with body := v }
  | .headers entries => { d with headers := named entries }
  | .queryParams entries => { d with queryParams := named entries }
  | .timeout v => { d with timeout := v }
  | .httpAuth config => { d with auth := config }
  | _ => d

def toProduce (d : ProduceDraft) : StepChange → ProduceDraft
  | .topic v => { d with topic := v }
  | .value v => { d with value := v }
  | .key v => { d with key := v }
  | .headers entries => { d with headers := entries }
  | .partition n => { d with partition := n }
  | .timestamp t => { d with timestamp := t }
  | .timeout v => { d with timeout := v }
  | .tuning t => { d with tuning := t }
  | .bootstrapServers s => { d with bootstrapServers := s }
  | .brokerAuth config => { d with auth := config }
  | .jsonOptions options => { d with jsonOptions := options }
  | _ => d

def toConsume (d : ConsumeDraft) : StepChange → ConsumeDraft
  | .topic v => { d with topic := v }
  | .groupId s => { d with groupId := s }
  | .timeout v => { d with timeout := v }
  | .expectedType kind => { d with expectedType := kind }
  | .autoOffsetReset v => { d with autoOffsetReset := v }
  | .bootstrapServers s => { d with bootstrapServers := s }
  | .brokerAuth config => { d with auth := config }
  | _ => d

def toBatchProduce (d : BatchProduceDraft) : StepChange → BatchProduceDraft
  | .topic v => { d with topic := v }
  | .messages pairs => { d with messages := pairs }
  | .headers entries => { d with headers := entries }
  | .timeout v => { d with timeout := v }
  | .tuning t => { d with tuning := t }
  | .bootstrapServers s => { d with bootstrapServers := s }
  | .brokerAuth config => { d with auth := config }
  | .jsonOptions options => { d with jsonOptions := options }
  | _ => d

def toBatchConsume (d : BatchConsumeDraft) : StepChange → BatchConsumeDraft
  | .topic v => { d with topic := v }
  | .messageCount n => { d with messageCount := n }
  | .groupId s => { d with groupId := s }
  | .timeout v => { d with timeout := v }
  | .expectedType kind => { d with expectedType := kind }
  | .autoOffsetReset v => { d with autoOffsetReset := v }
  | .bootstrapServers s => { d with bootstrapServers := s }
  | .brokerAuth config => { d with auth := config }
  | _ => d

end StepChange

def Variant.fieldNames : Variant → List String
  | .http => ["url", "method", "body", "headers", "query_params", "timeout", "auth"]
  | .produce =>
    ["topic", "value", "key", "headers", "partition", "timestamp", "timeout", "tuning",
      "bootstrap_servers", "auth", "json_options"]
  | .consume =>
    ["topic", "group_id", "timeout", "expected_type", "auto_offset_reset", "bootstrap_servers",
      "auth"]
  | .batchProduce =>
    ["topic", "messages", "headers", "timeout", "tuning", "bootstrap_servers", "auth",
      "json_options"]
  | .batchConsume =>
    ["topic", "message_count", "group_id", "timeout", "expected_type", "auto_offset_reset",
      "bootstrap_servers", "auth"]

/-- The names among changes that are no fields, in alphabetical order. -/
def unknownFields (fields : List String) (names : List String) : List String :=
  ((names.filter fun name => !fields.contains name).eraseDups).mergeSort fun a b => a ≤ b

def refuseUnknown (owner : String) (fields names : List String) : Except Fault Unit :=
  match unknownFields fields names with
  | [] => .ok ()
  | unknown => .error (.wrongType (owner ++ " has no field(s) " ++ Text.quotedList unknown))

namespace StepDraft

def set (draft : StepDraft) (change : StepChange) : StepDraft :=
  match draft with
  | .http d => .http (change.toHttp d)
  | .produce d => .produce (change.toProduce d)
  | .consume d => .consume (change.toConsume d)
  | .batchProduce d => .batchProduce (change.toBatchProduce d)
  | .batchConsume d => .batchConsume (change.toBatchConsume d)

def setAll (draft : StepDraft) (changes : List StepChange) : StepDraft := changes.foldl set draft

end StepDraft

namespace Step

/-- A copy of a step with changes. -/
def evolve (step : Step) (changes : List StepChange) : Except Fault Step :=
  match refuseUnknown step.variant.name step.variant.fieldNames (changes.map (·.name)) with
  | .error fault => .error fault
  | .ok _ => (step.draft.setAll changes).build

/-- A step with the fields that are given and defaults for the others. -/
def make (variant : Variant) (given : List StepChange) : Except Fault Step :=
  match given.find? fun change => !variant.fieldNames.contains change.name with
  | some change =>
    .error (.wrongType (variant.name ++ ".__init__() got an unexpected keyword argument "
      ++ Text.quoted change.name))
  | none => ((StepDraft.blank variant).setAll given).build

end Step

end Rehearsal
