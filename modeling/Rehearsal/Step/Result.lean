import Rehearsal.Fault
import Rehearsal.Text.LetterCase
import Rehearsal.Text.Utf8
import Rehearsal.Value
import Rehearsal.Value.Same

/-!
What came of a step.

A result tells whether the step succeeded, what was received, and what went wrong if anything did.
`StepResult.report` is the plain form in which results are exported: bytes as text, and every value
that JSON has no form for by its text.
-/

/-!
How long the items of a batch took: how many there are, how many succeeded, and the middle, the
95th percentile and the maximum of the durations that are known.

A percentile lies on the line between its two neighbours in the sorted durations, so it stays inside
their range. The summary works over any quantity: exact rationals, or doubles.
-/

namespace Rehearsal

/-- A quantity that can be interpolated and rounded. -/
class Quantity (Q : Type) where
  add : Q → Q → Q
  times : Q → Nat → Q
  part : Q → Nat → Q
  atMost : Q → Q → Bool
  /-- Rounds to three places. -/
  rounded : Q → Q

instance : Quantity Binary64 where
  add := Binary64.add
  times x n := x * Binary64.ofNat n
  part x n := x / Binary64.ofNat n
  atMost := Binary64.atMost
  rounded := Binary64.roundTo 3

def nearestInt (q : Rat) : Int :=
  let n := roundQuotient q.num.natAbs q.den
  if q.num < 0 then -(n : Int) else n

instance : Quantity Rat where
  add := (· + ·)
  times q n := q * n
  part q n := q / n
  atMost a b := a ≤ b
  rounded q := (nearestInt (q * 1000) : Rat) / 1000

structure TimingSummary (Q : Type) where
  count : Nat
  ok : Nat
  failed : Nat
  middle : Option Q
  high : Option Q
  longest : Option Q
  deriving DecidableEq, Repr

namespace Timing

variable {Q : Type} [Quantity Q]

def sorted (durations : List Q) : List Q := durations.mergeSort Quantity.atMost

/-- The point at `rank` hundredths of the way through sorted values. -/
def percentile? (values : List Q) (rank : Nat) : Option Q :=
  let place := rank * (values.length - 1)
  let weight := place % 100
  match values[place / 100]?, values[place / 100 + 1]? with
  | some low, some high =>
    some (Quantity.part
      (Quantity.add (Quantity.times low (100 - weight)) (Quantity.times high weight)) 100)
  | some low, none => some low
  | none, _ => none

/-- The summary of items, each with its duration, if known, and its success. -/
def summarize (items : List (Option Q × Bool)) : TimingSummary Q :=
  let durations := sorted (items.filterMap (·.1))
  let ok := (items.filter (·.2)).length
  { count := items.length, ok := ok, failed := items.length - ok
    middle := (percentile? durations 50).map Quantity.rounded
    high := (percentile? durations 95).map Quantity.rounded
    longest := durations.getLast?.map Quantity.rounded }

end Timing

/-- A summary as results show it. -/
def TimingSummary.fields (s : TimingSummary Binary64) : Value :=
  .ofFields [("count", .int s.count), ("ok", .int s.ok), ("failed", .int s.failed),
    ("p50_ms", .ofOption .float s.middle), ("p95_ms", .ofOption .float s.high),
    ("max_ms", .ofOption .float s.longest)]

end Rehearsal

namespace Rehearsal

/-! Results. -/

inductive StepKind where
  | http
  | produce
  | consume
  | batchProduce
  | batchConsume
  deriving DecidableEq, Repr, Inhabited

namespace StepKind

def text : StepKind → String
  | .http => "http"
  | .produce => "produce"
  | .consume => "consume"
  | .batchProduce => "batch_produce"
  | .batchConsume => "batch_consume"

def messages : List StepKind := [.produce, .consume, .batchProduce, .batchConsume]

def batches : List StepKind := [.batchProduce, .batchConsume]

def ofText? (s : String) : Option StepKind := (.http :: messages).find? (·.text == s)

end StepKind

inductive StepStatus where
  | notStarted
  | succeeded
  | failed
  deriving DecidableEq, Repr, Inhabited

namespace StepStatus

def text : StepStatus → String
  | .notStarted => "not_started"
  | .succeeded => "succeeded"
  | .failed => "failed"

def ofText? (s : String) : Option StepStatus :=
  [.notStarted, .succeeded, .failed].find? (·.text == s)

end StepStatus

structure StepMetadata where
  started : Option Instant := none
  completed : Option Instant := none
  status : StepStatus := .notStarted
  attempts : Nat := 0
  deriving Repr, Inhabited

namespace StepMetadata

def duration? (m : StepMetadata) : Option Span :=
  match m.started, m.completed with
  | some a, some b => some ⟨b.epochMicros - a.epochMicros⟩
  | _, _ => none

def milliseconds? (m : StepMetadata) : Option Binary64 :=
  m.duration?.map fun span => span.totalSeconds * Binary64.ofNat 1000

end StepMetadata

structure StepResult where
  kind : StepKind
  success : Bool
  statusCode : Option Int := none
  delivery : Option DeliveryStatus := none
  payload : Value := .null
  headers : List (String × List Value) := []
  properties : List (String × Value) := []
  errors : List String := []
  error : Option Fault := none
  metadata : StepMetadata := {}
  items : List StepResult := []
  deriving Inhabited

/-- Values under one name gathered, names in the order of their first occurrence. -/
def groupHeaders (headers : List (String × Value)) : List (String × List Value) :=
  headers.foldl add []
where
  add (grouped : List (String × List Value)) (header : String × Value) :
      List (String × List Value) :=
    match grouped with
    | [] => [(header.1, [header.2])]
    | (name, values) :: rest =>
      if name = header.1 then (name, values ++ [header.2]) :: rest
      else (name, values) :: add rest header

mutual

/-- A value as a report holds it. -/
def Value.plain : Value → Value
  | .bytes b => .text (Utf8.decodeLossy b)
  | .list items => .list (plainItems items)
  | .tuple items => .list (plainItems items)
  | .map entries => .map (plainEntries entries)
  | .status s => .text s.text
  | .text s => .text s
  | .int n => .int n
  | .float x => .float x
  | .bool b => .bool b
  | .null => .null
  | value => .text value.display

def Value.plainItems : List Value → List Value
  | [] => []
  | item :: rest => item.plain :: plainItems rest

/-- Entries under the texts of their keys; of two with one text the first keeps its place and the
last its value. -/
def Value.plainEntries : List (Value × Value) → List (Value × Value)
  | [] => []
  | (key, value) :: rest =>
    let name : Value := .text key.display
    let others := plainEntries rest
    match Value.lookup? others name with
    | some last => (name, last) :: others.filter fun entry => !entry.1.same name
    | none => (name, value.plain) :: others

end

namespace StepResult

def header (r : StepResult) (name : String) : List Value :=
  (r.headers.filter fun group => Text.sameIgnoringCase group.1 name).flatMap (·.2)

def property? (r : StepResult) (name : String) : Option Value :=
  (r.properties.find? (·.1 == name)).map (·.2)

/-- A property, null if it is absent. -/
def property (r : StepResult) (name : String) : Value := (r.property? name).getD .null

def statusWithin (r : StepResult) (low high : Int) : Bool :=
  r.statusCode.any fun code => low ≤ code && code < high

def isSuccessStatus (r : StepResult) : Bool := r.statusWithin 200 300

def isRedirect (r : StepResult) : Bool := r.statusWithin 300 400

def isClientError (r : StepResult) : Bool := r.statusWithin 400 500

def isServerError (r : StepResult) : Bool := r.statusWithin 500 600

/-- The timing of items, a failed one counted as such. -/
def timing (items : List StepResult) : TimingSummary Binary64 :=
  Timing.summarize (items.map fun item => (item.metadata.milliseconds?, item.success))

mutual

def report (r : StepResult) : List (String × Value) :=
  match r with
  | ⟨kind, success, statusCode, delivery, payload, headers, properties, errors, _, metadata,
      items⟩ =>
    [("kind", .text kind.text), ("success", .bool success),
      ("status_code", .ofOption .int statusCode),
      ("delivery_status", .ofOption (fun (s : DeliveryStatus) => .text s.text) delivery),
      ("payload", payload.plain),
      ("headers", (Value.ofFields (headers.map fun (name, values) =>
        (name, .list values))).plain),
      ("properties", (Value.ofFields properties).plain),
      ("errors", .list (errors.map .text)),
      ("started_at", .ofOption (fun (t : Instant) => .text t.isoText) metadata.started),
      ("status", .text metadata.status.text),
      ("duration_ms", .ofOption .float metadata.milliseconds?),
      ("items", .list (reports items))]

def reports : List StepResult → List Value
  | [] => []
  | r :: rest => .ofFields r.report :: reports rest

end

end StepResult

end Rehearsal
