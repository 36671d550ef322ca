import Rehearsal.Auth.Config
import Rehearsal.Step

/-!
Equality of steps: steps of one kind whose fields are equal. The order of headers and parameters of
a request does not matter, that of message headers does.
-/

namespace Rehearsal.Step

def headerValues (headers : MessageHeaders) : Value :=
  .list (MessageHeaders.entries headers |>.map fun (name, value) => .tuple [name, value])

def kindValue (kind : Option Kind) : Value := .ofOption (fun (k : Kind) => .text k.name) kind

def httpAuthValue (auth : Option HttpAuthConfig) : Value := .ofOption HttpAuthConfig.fields auth

def brokerAuthValue (auth : Option BrokerAuthConfig) : Value :=
  .ofOption BrokerAuthConfig.fields auth

/-- The contents of a step but its timeout. -/
def contents : Step → List Value
  | .http s =>
    [.text s.url, .text s.method, s.body, .ofFields s.headers, .ofFields s.queryParams,
      httpAuthValue s.auth]
  | .produce s =>
    [.text s.topic, s.value, s.key, headerValues s.headers, .ofOption .int s.partition,
      .ofOption .instant s.timestamp, .ofFields s.tuning.fields,
      .ofOption .text s.bootstrapServers, brokerAuthValue s.auth, .ofFields s.jsonOptions]
  | .consume s =>
    [.text s.topic, .ofOption .text s.groupId, kindValue s.expectedType,
      .text s.autoOffsetReset.text, .ofOption .text s.bootstrapServers, brokerAuthValue s.auth]
  | .batchProduce s =>
    [.text s.topic, .list (s.messages.map fun (key, value) => .tuple [key, value]),
      headerValues s.headers, .ofFields s.tuning.fields, .ofOption .text s.bootstrapServers,
      brokerAuthValue s.auth, .ofFields s.jsonOptions]
  | .batchConsume s =>
    [.text s.topic, .int s.messageCount, .ofOption .text s.groupId, kindValue s.expectedType,
      .text s.autoOffsetReset.text, .ofOption .text s.bootstrapServers, brokerAuthValue s.auth]

def timeout : Step → Binary64
  | .http s => s.timeout
  | .produce s => s.timeout
  | .consume s => s.timeout
  | .batchProduce s => s.timeout
  | .batchConsume s => s.timeout

/-- Whether contents are the same or equal, one by one. -/
def agree : List Value → List Value → Bool
  | [], [] => true
  | a :: as, b :: bs => (a.identical b || a.same b) && agree as bs
  | _, _ => false

def same (a b : Step) : Bool :=
  a.variant == b.variant && (a.timeout == b.timeout || a.timeout.equal b.timeout)
    && agree a.contents b.contents

end Rehearsal.Step
