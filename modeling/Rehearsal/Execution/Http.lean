import Rehearsal.Execution.World
import Rehearsal.Step

/-!
Sending a request and making a result of the answer.

The headers of a request are layered: the default ones, the content type of a JSON body, those of the
step, and what authentication writes, each replacing what has its name in any spelling. A fault of
the transport becomes a failed result; a fault in the description of the step is raised.
-/

namespace Rehearsal

def asciiFlaw? (s : String) : Option String :=
  let cs := s.toList
  let start := (cs.takeWhile fun c => c.toNat < 128).length
  match (cs.drop start).takeWhile fun c => !(c.toNat < 128) with
  | [] => none
  | [c] =>
    some ("'ascii' codec can't encode character '" ++ Text.codeEscape c
      ++ "' in position " ++ toString start ++ ": ordinal not in range(128)")
  | run =>
    some ("'ascii' codec can't encode characters in position " ++ toString start ++ "-"
      ++ toString (start + run.length - 1) ++ ": ordinal not in range(128)")

def checkAscii (s : String) : Except Fault Unit :=
  match asciiFlaw? s with
  | some why => .error (.raised .asciiText why)
  | none => .ok ()

def Headers.checkSendable (headers : Headers) : Except Fault Unit :=
  headers.forM fun (name, value) => do
    checkAscii name
    match value with
    | .bytes _ => return ()
    | value =>
      match value.text? with
      | some s => checkAscii s
      | none =>
        throw (.wrongType ("Header value must be str or bytes, not <class '"
          ++ value.qualifiedTypeName ++ "'>"))

/-- The address a request goes to: its URL, normalised, with its parameters as the query. -/
def Request.address (request : Request) : Except Fault String := do
  let invalid {α : Type} (outcome : Except Url.TargetFlaw α) : Except Fault α :=
    match outcome with
    | .ok a => .ok a
    | .error flaw => .error (.raised .invalidUrl flaw.message)
  let target ← invalid (Url.Target.ofText request.url)
  request.headers.checkSendable
  let params := request.params.map fun (name, value) => (name, OAuth2Auth.formValue value)
  let query := if params.isEmpty then none else some (Url.formPairs params)
  return (← invalid (target.withQuery query)).text

namespace HttpStep

/-- The body that is sent, and whether it is JSON. -/
def content (step : HttpStep) : Except Fault (Value × Bool) :=
  match step.body with
  | .null => .ok (.null, false)
  | .bytes bytes => .ok (.bytes bytes, false)
  | .text s => .ok (.text s, false)
  | .status s => .ok (.status s, false)
  | body =>
    match Codec.encode body Json.Style.plain with
    | .ok bytes => .ok (.ofOption .bytes bytes, true)
    | .error fault =>
      .error (.configuration (.bodyNotSerializable step.method step.url fault.message))

def request (step : HttpStep) (settings : HttpSettings) : Except Fault Request := do
  let (body, isJson) ← step.content
  let defaults : Headers := settings.defaultHeaders.map fun (name, text) => (name, .text text)
  let headers :=
    if isJson then defaults.set "Content-Type" (.text "application/json") else defaults
  return { method := step.method, url := step.url, headers := headers.setAll step.headers
           params := step.queryParams, body := body, timeout := step.timeout
           certificate := none }

/-- The properties of a result without a response. -/
def facts (step : HttpStep) : List (String × Value) :=
  [("method", .text step.method), ("url", .text step.url)]

def failed (step : HttpStep) (now : Instant) (fault : Fault) : StepResult :=
  { StepResult.failure now .http fault .null step.facts with statusCode := some 0 }

/-- A fault as the result of a step, if it is one of the transport. -/
def captured (step : HttpStep) (now : Instant) (fault : Fault) : Except Fault StepResult :=
  if fault.kind.isA .transport || fault.kind.isA .stepTimeout then .ok (step.failed now fault)
  else .error fault

/-- The result of a response from an address. -/
def received (step : HttpStep) (now : Instant) (address : String) (r : Response) : StepResult :=
  let reason := Response.phrase r.status
  let contentType :=
    match r.headerValues "content-type" with
    | [] => .null
    | values => .text (String.intercalate ", " values)
  { kind := .http, success := r.isSuccess, statusCode := some r.status, payload := .text r.text
    headers := groupHeaders (r.headers.map fun (name, text) => (Text.lower name, .text text))
    properties := [("method", .text step.method), ("url", .text address),
      ("reason", .text reason), ("content_type", contentType),
      ("http_version", .text "HTTP/1.1")]
    errors :=
      if r.isSuccess then []
      else ["HTTP " ++ toString r.status ++ " " ++ reason ++ " from " ++ step.method ++ " "
        ++ step.url]
    metadata := .ofRun now r.isSuccess }

def answered (step : HttpStep) (now : Instant) (address : String) : Answer → StepResult
  | .response r => step.received now address r
  | .timedOut _ => step.failed now (.stepTimeout (.noAnswer step.method step.url step.timeout))
  | .failed why => step.failed now (.transport (.request step.method step.url why))
  | .unfinished =>
    step.failed now (.stepTimeout (.answerUnfinished step.method step.url step.timeout))

end HttpStep

namespace World

def transmit (w : World) (step : HttpStep) (request : Request) : Except Fault StepResult × World :=
  match request.address with
  | .error fault =>
    (step.captured w.now fault,
      { w with web := { w.web with received := w.web.received ++ [request] } })
  | .ok address =>
    let (answer, web) := w.web.ask request
    (.ok (step.answered w.now address answer), { w with web := web })

def send (w : World) (step : HttpStep) (request : Request) : Except Fault StepResult × World :=
  match w.withPool (w.pool.httpClient request.certificate (w.certificateFault request.certificate))
    with
  | (.error fault, w) => (step.captured w.now fault, w)
  | (.ok client, w) => (w.note (.used client)).transmit step request

def runHttp (w : World) (settings : Settings) (step : HttpStep) :
    Except Fault StepResult × World :=
  let ready : Except Fault (Request × HttpStrategy) := do
    let request ← step.request settings.http
    return (request, ← HttpStrategy.resolve (given step.auth settings.http.auth))
  match ready with
  | .error fault => (.error fault, w)
  | .ok (request, strategy) =>
    match strategy.authorize request w.tokens with
    | (.error fault, tokens) => (step.captured w.now fault, { w with tokens := tokens })
    | (.ok request, tokens) => ({ w with tokens := tokens }).send step request

end World

end Rehearsal
