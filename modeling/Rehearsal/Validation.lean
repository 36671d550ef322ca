import Rehearsal.Document.Coerce
import Rehearsal.Validation.Check

/-!
Assertions about the result of a step.

An assertion passes or fails with a text that names what was expected and what was found. Some make
sense for one kind of result only, and are refused for others.
-/

namespace Rehearsal

inductive ValidationKind where
  | plain
  | http
  | message
  deriving DecidableEq, Repr, Inhabited

def ValidationKind.name : ValidationKind → String
  | .plain => "ValidationBuilder"
  | .http => "HttpValidation"
  | .message => "MessageValidation"

/-- A result under validation; `attached` says whether a scenario goes on from it. -/
structure Validation where
  kind : ValidationKind
  result : StepResult
  attached : Bool
  deriving Inhabited

/-- What an assertion expects: a value, or what a check accepts. -/
inductive Expectation where
  | value (v : Value)
  | check (c : Check)
  deriving Repr, Inhabited

def Expectation.evidence : Expectation → Evidence
  | .value v => .value v
  | .check _ => .check

inductive Assertion where
  | success
  | failure
  | errorContains (text : String)
  | errorType (name : String)
  | property (key : String) (expected : Expectation)
  | jsonPath (path : Except Fault Path) (check : Option Check) (asKind : Kind)
      (equals : Option Value) (message : Option String)
  | custom (check : Check)
  | status (codes : List Value)
  | statusInRange (low high : Int)
  | header (name : String) (expected : Expectation)
  | contentType (fragment : String)
  | topic (expected : Expectation)
  | partition (expected : Expectation)
  | offset (expected : Expectation)
  | key (expected : Expectation)
  | deliveryStatus (status : Value)
  | persisted
  | message (check : Check)
  | messageHeader (key : String) (expected : Expectation)
  | batchCount (count : Int)
  deriving Inhabited

namespace Validation

/-- Whether two values are equal; a decimal and a double are compared as doubles. -/
def agree (actual expected : Value) : Bool :=
  match actual, expected with
  | .decimal d, .float x => d.toBinary64.equal x
  | .float x, .decimal d => x.equal d.toBinary64
  | actual, expected => actual.same expected

def refuse (text : String) (path : Option String) (expected actual : Evidence) :
    Except Fault Unit :=
  .error (.assertionFailure text path expected actual none)

def shownSubject : Subject → String
  | .value v => " (actual: " ++ v.shown ++ ")"
  | .result _ => ""

def applyCheck (check : Check) (subject : Subject) (text : String) (path : Option String)
    (expected : Evidence) : Except Fault Unit :=
  match check.run subject with
  | .ok (.bool false) => refuse (text ++ shownSubject subject) path expected subject.evidence
  | .ok _ => .ok ()
  | .error (.raised .assertion why) =>
    .error (.assertionFailure (text ++ ": " ++ why) path expected subject.evidence
      (some .assertion))
  | .error fault => .error fault

def errorName (r : StepResult) : String :=
  match r.error with
  | some fault => fault.kind.name
  | none => "NoneType"

def hasErrorType (r : StepResult) (name : String) : Bool :=
  name == "object" ||
    match r.error, FaultClass.ofName? name with
    | some fault, some wanted => fault.kind.isA wanted
    | _, _ => false

def checkProperty (r : StepResult) (key : String) (expected : Expectation) :
    Except Fault Unit :=
  match r.property? key with
  | none =>
    let names := (r.properties.map (·.1)).mergeSort fun a b => a ≤ b
    refuse ("Expected property '" ++ key ++ "' but result has " ++ Text.quotedList names)
      (some key) expected.evidence .nothing
  | some actual =>
    match expected with
    | .check check =>
      applyCheck check (.value actual) ("Property assertion failed for '" ++ key ++ "'")
        (some key) .nothing
    | .value wanted =>
      if agree actual wanted then .ok ()
      else
        refuse ("Expected property '" ++ key ++ "' to be " ++ wanted.shown ++ " but was "
          ++ actual.shown) (some key) (.value wanted) (.value actual)

/-- Whether a failure is one of reading a document. -/
def isPathFault (fault : Fault) : Bool := fault.kind.isA .jsonPath

def checkJsonPath (r : StepResult) (path : Path) (check : Option Check) (asKind : Kind)
    (equals : Option Value) (message : Option String) : Except Fault Unit :=
  let failure :=
    match message with
    | some text =>
      if text = "" then "JSON path assertion failed for path: " ++ path.text else text
    | none => "JSON path assertion failed for path: " ++ path.text
  let expected : Evidence := .value (equals.getD .null)
  match Document.evaluateAs r.payload path asKind with
  | .error fault =>
    if isPathFault fault then
      .error (.assertionFailure (failure ++ ": " ++ fault.message) (some path.text) expected
        .nothing (some fault.kind))
    else .error fault
  | .ok found =>
    match equals with
    | some wanted =>
      if !agree found wanted then
        refuse ("Expected " ++ path.text ++ " to equal " ++ wanted.shown ++ " but was "
          ++ found.shown) (some path.text) expected (.value found)
      else
        match check with
        | some check => applyCheck check (.value found) failure (some path.text) expected
        | none => .ok ()
    | none =>
      match check with
      | some check => applyCheck check (.value found) failure (some path.text) expected
      | none => .ok ()

/-- Refuses an operation for results of other kinds than these. -/
def requireKind (r : StepResult) (operation : String) (kinds : List StepKind) :
    Except Fault Unit :=
  if kinds.contains r.kind then .ok ()
  else
    .error (.incompatibleStep operation (r.kind.text ++ " result")
      (kinds.map fun kind => kind.text ++ " result"))

def checkStatus (r : StepResult) (codes : List Value) : Except Fault Unit :=
  let actual := Value.ofOption .int r.statusCode
  if codes.any fun code => actual.same code then .ok ()
  else
    let (label, wanted) :=
      match codes with
      | [code] => (code.display, code)
      | codes => ("one of " ++ (Value.list codes).shown, .list codes)
    refuse ("Expected HTTP status code " ++ label ++ " but got " ++ actual.display) none
      (.value wanted) (.value actual)

def checkStatusInRange (r : StepResult) (low high : Int) : Except Fault Unit :=
  if r.statusCode.any fun code => low ≤ code && code ≤ high then .ok ()
  else
    let actual := Value.ofOption .int r.statusCode
    refuse ("Expected HTTP status code in [" ++ toString low ++ ", " ++ toString high
      ++ "] but got " ++ actual.display) none (.value (.tuple [.int low, .int high]))
      (.value actual)

def checkHeader (r : StepResult) (name : String) (expected : Expectation) : Except Fault Unit :=
  match r.header name, expected with
  | [], expected =>
    refuse ("Expected response header '" ++ name ++ "' but it was absent") (some name)
      expected.evidence .nothing
  | values, .check check =>
    let found :=
      match values with
      | [value] => value
      | values => .tuple values
    applyCheck check (.value found) ("Header assertion failed for '" ++ name ++ "'") (some name)
      .nothing
  | _, .value .null => .ok ()
  | values, .value wanted =>
    if values.any fun value => value.same wanted then .ok ()
    else
      refuse ("Expected header '" ++ name ++ "' to be " ++ wanted.shown ++ " but was "
        ++ (Value.list values).shown) (some name) (.value wanted) (.value (.list values))

def checkContentType (r : StepResult) (fragment : String) : Except Fault Unit :=
  let given := r.property "content_type"
  let found := if given.truthy then given else .text ""
  match found.text? with
  | none => .error (Check.noAttribute (.value found) "lower")
  | some actual =>
    if Text.occursIn (Text.lower fragment).toList (Text.lower actual).toList then .ok ()
    else
      refuse ("Expected content type containing " ++ Text.quoted fragment ++ " but got "
        ++ found.shown) (some "content-type") (.value (.text fragment)) (.value found)

def checkField (r : StepResult) (operation key : String) (expected : Expectation) :
    Except Fault Unit := do
  requireKind r operation StepKind.messages
  let actual := r.property key
  match expected with
  | .check check =>
    applyCheck check (.value actual) (operation ++ " failed") (some key) .nothing
  | .value wanted =>
    if agree actual wanted then return ()
    else
      refuse ("Expected " ++ key ++ " " ++ wanted.shown ++ " but got " ++ actual.shown)
        (some key) (.value wanted) (.value actual)

def checkDelivery (r : StepResult) (status : Value) : Except Fault Unit := do
  requireKind r "assert_delivery_status" [.produce]
  match status.text?.bind DeliveryStatus.ofText? with
  | none => throw (.badValue (status.shown ++ " is not a valid DeliveryStatus"))
  | some wanted =>
    if r.delivery = some wanted then return ()
    else
      let actual := (r.delivery.map (·.text)).getD "None"
      refuse ("Expected delivery status " ++ wanted.text ++ " but got " ++ actual) none
        (.value status) (.value (.ofOption .status r.delivery))

/-- A text as the bytes that carry it; other values as they are. -/
def asBytes (v : Value) : Value :=
  match v.text? with
  | some s => .bytes (Utf8.encode s)
  | none => v

def checkMessageHeader (r : StepResult) (key : String) (expected : Expectation) :
    Except Fault Unit := do
  requireKind r "assert_message_header" StepKind.messages
  let values := ((r.headers.find? (·.1 == key)).map (·.2)).getD []
  match values, expected with
  | [], expected =>
    refuse ("Expected message header '" ++ key ++ "' but it was absent") (some key)
      expected.evidence .nothing
  | value :: _, .check check =>
    applyCheck check (.value value) ("Header assertion failed for '" ++ key ++ "'") (some key)
      .nothing
  | _, .value .null => return ()
  | values, .value wanted =>
    if values.any fun value => value.same (asBytes wanted) then return ()
    else
      refuse ("Expected message header '" ++ key ++ "' to be " ++ wanted.shown ++ " but was "
        ++ (Value.list values).shown) (some key) (.value wanted) (.value (.list values))

def checkBatchCount (r : StepResult) (count : Int) : Except Fault Unit := do
  requireKind r "assert_batch_count" StepKind.batches
  let actual : Int := r.items.length
  if actual = count then return ()
  else
    refuse ("Expected batch of " ++ toString count ++ " messages but got " ++ toString actual)
      none (.value (.int count)) (.value (.int actual))

/-- Whether an assertion holds of a result. -/
def judge (r : StepResult) : Assertion → Except Fault Unit
  | .success =>
    if r.success then .ok ()
    else
      refuse ("Expected step to succeed but it failed with errors: "
        ++ String.intercalate "; " r.errors) none (.value (.bool true)) (.value (.bool false))
  | .failure =>
    if r.success then
      refuse "Expected step to fail but it succeeded" none (.value (.bool false))
        (.value (.bool true))
    else .ok ()
  | .errorContains text =>
    if r.errors.any fun e => Text.occursIn text.toList e.toList then .ok ()
    else
      refuse ("Expected an error containing " ++ Text.quoted text ++ "; errors were: "
        ++ Text.quotedList r.errors) none (.value (.text text))
        (.value (.list (r.errors.map .text)))
  | .errorType name =>
    if hasErrorType r name then .ok ()
    else
      refuse ("Expected error of type " ++ name ++ " but got " ++ errorName r) none
        (.value (.text name)) (.value (.text (errorName r)))
  | .property key expected => checkProperty r key expected
  | .jsonPath path check asKind equals message => do
    checkJsonPath r (← path) check asKind equals message
  | .custom check => applyCheck check (.result r) "Custom validation failed" none .nothing
  | .status codes => do
    requireKind r "assert_status" [.http]
    checkStatus r codes
  | .statusInRange low high => do
    requireKind r "assert_status_in_range" [.http]
    checkStatusInRange r low high
  | .header name expected => do
    requireKind r "assert_header" [.http]
    checkHeader r name expected
  | .contentType fragment => do
    requireKind r "assert_content_type" [.http]
    checkContentType r fragment
  | .topic expected => checkField r "assert_topic" "topic" expected
  | .partition expected => checkField r "assert_partition" "partition" expected
  | .offset expected => checkField r "assert_offset" "offset" expected
  | .key expected => checkField r "assert_key" "key" expected
  | .deliveryStatus status => checkDelivery r status
  | .persisted => checkDelivery r (.status .persisted)
  | .message check => do
    requireKind r "assert_message" StepKind.messages
    applyCheck check (.value r.payload) "Message assertion failed" none .nothing
  | .messageHeader key expected => checkMessageHeader r key expected
  | .batchCount count => checkBatchCount r count

def offer : Assertion → String × Option ValidationKind
  | .success => ("assert_success", none)
  | .failure => ("assert_failure", none)
  | .errorContains _ => ("assert_error_contains", none)
  | .errorType _ => ("assert_error_type", none)
  | .property .. => ("assert_property", none)
  | .jsonPath .. => ("assert_json_path", none)
  | .custom _ => ("validate", none)
  | .status _ => ("assert_status", some .http)
  | .statusInRange .. => ("assert_status_in_range", some .http)
  | .header .. => ("assert_header", some .http)
  | .contentType _ => ("assert_content_type", some .http)
  | .topic _ => ("assert_topic", some .message)
  | .partition _ => ("assert_partition", some .message)
  | .offset _ => ("assert_offset", some .message)
  | .key _ => ("assert_key", some .message)
  | .deliveryStatus _ => ("assert_delivery_status", some .message)
  | .persisted => ("assert_persisted", some .message)
  | .message _ => ("assert_message", some .message)
  | .messageHeader .. => ("assert_message_header", some .message)
  | .batchCount _ => ("assert_batch_count", some .message)

def notOffered (v : Validation) (method : String) : Fault :=
  .raised .missingAttribute
    ("'" ++ v.kind.name ++ "' object has no attribute '" ++ method ++ "'")

/-- Makes an assertion, if the validation offers it. -/
def assert (v : Validation) (assertion : Assertion) : Except Fault Unit :=
  let (method, kind) := offer assertion
  if kind.all (· == v.kind) then judge v.result assertion else .error (v.notOffered method)

def item (v : Validation) (index : Int) : Except Fault Validation :=
  if v.kind != .message then .error (v.notOffered "item")
  else do
    requireKind v.result "item" StepKind.batches
    let count := v.result.items.length
    let missing : Fault :=
      .raised .missingIndex ("Batch has " ++ toString count ++ " items, no item "
        ++ toString index)
    if index < 0 then throw missing
    match v.result.items[index.toNat]? with
    | some r => return ⟨.message, r, v.attached⟩
    | none => throw missing

/-- The validation that fits a result. -/
def forResult (r : StepResult) (attached : Bool) : Validation :=
  ⟨if r.kind = .http then .http else .message, r, attached⟩

end Validation

end Rehearsal
