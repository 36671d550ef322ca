import Rehearsal.Report
import Rehearsal.Script.Call
import Rehearsal.Script.Value
import Rehearsal.Script.World
import Rehearsal.Step.Result
import Rehearsal.Validation

/-!
Scenarios written as JSON: their state, what they executed and saved, and what the world they run in
has come to.
-/

/-!
Failures written as JSON: class and message, and what else a class of failures tells.
-/

namespace Rehearsal.Script

def evidence : Evidence → Value
  | .value v => write v
  | .check => tagged "$check" (.bool true)
  | .result => tagged "$result" (.bool true)

/-- What a class of failures tells beside class and message. -/
def faultDetails : Fault → List (String × Value)
  | .incompatibleStep operation actual accepted =>
    [("operation", .text operation), ("actual", .text actual), ("accepted", texts accepted)]
  | .invalidPath _ path => [("path", optional path)]
  | .emptyDocument _ => [("path", .null)]
  | .malformedDocument _ => [("path", .null)]
  | .pathNotFound path segment _ => [("path", .text path), ("segment", .text segment)]
  | .typeMismatch path expected actual =>
    [("path", .text path), ("expected_type", .text expected.name), ("actual", write actual)]
  | .deliveryFailure topic status => [("topic", .text topic), ("status", .text status)]
  | .assertionFailure _ path expected actual cause =>
    [("path", optional path), ("expected", evidence expected), ("actual", evidence actual),
      ("cause", optional (cause.map (·.name)))]
  | _ => []

def faultFields (f : Fault) : List (String × Value) :=
  [("error", .text f.kind.name), ("message", .text f.message)] ++ faultDetails f

def fault (f : Fault) : Value := object (faultFields f)

/-- What a computation gave: a value, or why there is none. -/
def outcome : Except Fault Value → Value
  | .ok value => object [("value", write value)]
  | .error f => fault f

/-!
Results written as JSON, and the entries from which a result is read.
-/

mutual

def result (r : StepResult) : Value :=
  match r with
  | ⟨kind, success, statusCode, delivery, payload, headers, properties, errors, error, metadata,
      items⟩ =>
    object [("kind", .text kind.text), ("success", .bool success),
      ("status_code", write (.ofOption .int statusCode)),
      ("delivery_status", optional (delivery.map (·.text))), ("payload", write payload),
      ("headers", .list (headers.map fun (name, values) =>
        .list [.text name, .list (values.map write)])),
      ("properties", writeObject properties), ("errors", texts errors),
      ("error", optional (error.map (·.kind.name))), ("status", .text metadata.status.text),
      ("attempts", .int metadata.attempts), ("items", .list (results items))]

def results : List StepResult → List Value
  | [] => []
  | r :: rest => result r :: results rest

end

def metadata (now : Instant) (micros : Option Int) (status : StepStatus) : StepMetadata :=
  match micros with
  | some n =>
    { started := some now, completed := some (.ofEpochMicros (now.epochMicros + n))
      status := status }
  | none => { status := status }

def readResult (now : Instant) (j : Value) (items : List StepResult) : StepResult :=
  { kind := (StepKind.ofText? (textOf (field j "kind"))).getD .http
    success := flagOf (field j "success") true
    statusCode := readInt? (field j "status_code")
    delivery := DeliveryStatus.ofText? (textOf (field j "delivery_status"))
    payload := read (field j "payload")
    headers := (itemsOf (field j "headers")).map fun pair =>
      (textOf (itemAt pair 0), (itemsOf (itemAt pair 1)).map read)
    properties := readFields (field j "properties")
    errors := (itemsOf (field j "errors")).map textOf
    error := (field? j "error").bind fun e =>
      (FaultClass.ofName? (textOf (field e "type"))).map fun kind =>
        .raised kind (textOf (field e "message"))
    metadata := metadata now (readInt? (field j "duration_us"))
      ((StepStatus.ofText? (textOf (field j "meta_status"))).getD .notStarted)
    items := items }

/-! Scenarios. -/

/-- The stage of a scenario and the step it is at. -/
def stage (e : Engine) : List (String × Value) :=
  [("state", .text e.stage.text), ("step", step e.current)]

def ran (r : StepResult) : List (String × Value) :=
  [("validation", .text (Validation.forResult r true).kind.name), ("result", result r)]

def answered (e : Engine) : Except Fault (Option StepResult) → List (String × Value)
  | .error f => faultFields f
  | .ok (some r) => ran r
  | .ok none => stage e

def executed (x : ExecutedStep) : Value :=
  object [("variant", .text x.step.variant.name), ("success", .bool x.result.success),
    ("target", .text x.step.target)]

def savedStep (name : String) (x : ExecutedStep) : Value :=
  object [("name", .text name), ("success", .bool x.result.success), ("step", step (some x.step))]

def contextView (c : Context ExecutedStep) : Value :=
  object [("keys", texts (Keyed.keys c.properties)), ("steps", texts c.steps.names),
    ("values", .list (c.properties.map fun entry => write entry.2))]

def configs (made : List ClientConfig) : Value := .list (made.map writeObject)

def poolState (p : Pool) : List (String × Value) :=
  [("closed", .bool p.isClosed), ("producer_created", .bool p.shared.isSome)]

def inquiry (e : Engine) (w : World) (question : String) (j : Value) : Except Fault Value := do
  match question with
  | "state" =>
    return object (stage e ++ [("result", .ofOption result e.result)])
  | "history" => return .list (e.history.map executed)
  | "results" =>
    return .list (e.results.map fun (name, r) =>
      .list [.text name, .text r.kind.text, .bool r.success])
  | "saved" =>
    let (name, x) ← e.context.steps.find (textOf (field j "name"))
    return savedStep name x
  | "messages" => return .list ((w.cluster.broker.messages (textOf (field j "topic"))).map message)
  | "producer_configs" => return configs w.pool.producerConfigs
  | "consumer_configs" => return configs w.pool.consumerConfigs
  | "pool" => return object (poolState w.pool)
  | "context" => return contextView e.context
  | "report" => return write (Report.build w.now (textOf (field j "name")) e.history)
  | _ => return .bool e.result.isSome

end Rehearsal.Script
