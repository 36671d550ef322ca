import Rehearsal.Script.Value
import Rehearsal.Validation

/-!
Assertions written as JSON: the name of a method and its arguments.
-/

namespace Rehearsal.Script

def check (j : Value) : Check :=
  let value := read (field j "value")
  match textOf (field j "kind") with
  | "eq" => .equals value
  | "ne" => .differs value
  | "gt" => .above value
  | "lt" => .below value
  | "startswith" => .startsWith value
  | "contains" => .contains value
  | "len" => .hasLength value
  | "success" => .succeeded
  | "return" => .answers value
  | "assert" => .asserts value.display
  | "fail" => .fails value.display
  | _ => .breaks value.display

def check? (j : Value) : Option Check := (field? j "$check").map check

def expectation (j : Value) : Expectation :=
  match check? j with
  | some check => .check check
  | none => .value (read j)

def parameters (method : String) : List String :=
  match method with
  | "assert_error_contains" => ["text"]
  | "assert_error_type" => ["error_type"]
  | "assert_property" => ["key", "expected"]
  | "assert_json_path" => ["path", "check"]
  | "json_path" => ["path", "as_type"]
  | "validate" => ["check"]
  | "assert_status_in_range" => ["low", "high"]
  | "assert_header" => ["name", "expected"]
  | "assert_content_type" => ["fragment"]
  | "assert_topic" => ["topic"]
  | "assert_partition" => ["partition"]
  | "assert_offset" => ["offset"]
  | "assert_key" => ["key"]
  | "assert_delivery_status" => ["status"]
  | "assert_message" => ["check"]
  | "assert_message_header" => ["key", "expected"]
  | "assert_batch_count" => ["count"]
  | "item" => ["index"]
  | _ => []

/-- The arguments of an entry that calls a method of a validation. -/
def argumentsOf (j : Value) : List Value :=
  placed (parameters (textOf (field j "v"))) (itemsOf (field j "args"))
    (entriesOf (field j "kwargs"))

def itemIndex (j : Value) : Int := readInt (((argumentsOf j)[0]?).getD .null)

def assertion? (j : Value) : Option Assertion :=
  let args := argumentsOf j
  let named := field j "kwargs"
  let first := (args[0]?).getD .null
  let second := (args[1]?).getD .null
  let text := readText first
  let expected := expectation first
  let detail := expectation second
  match textOf (field j "v") with
  | "assert_success" => some .success
  | "assert_failure" => some .failure
  | "assert_error_contains" => some (.errorContains text)
  | "assert_error_type" => some (.errorType (textOf (field first "$type")))
  | "assert_property" => some (.property text detail)
  | "assert_json_path" =>
    some (.jsonPath (readPath first) (check? second)
      ((readKind? (field named "as_type")).getD .anything) ((field? named "equals").map read)
      (field named "message").text?)
  | "validate" => some (.custom ((check? first).getD (.answers .null)))
  | "assert_status" => some (.status (args.map read))
  | "assert_status_in_range" => some (.statusInRange (readInt first) (readInt second))
  | "assert_header" => some (.header text detail)
  | "assert_content_type" => some (.contentType text)
  | "assert_topic" => some (.topic expected)
  | "assert_partition" => some (.partition expected)
  | "assert_offset" => some (.offset expected)
  | "assert_key" => some (.key expected)
  | "assert_delivery_status" => some (.deliveryStatus (read first))
  | "assert_persisted" => some .persisted
  | "assert_message" => some (.message ((check? first).getD (.answers .null)))
  | "assert_message_header" => some (.messageHeader text detail)
  | "assert_batch_count" => some (.batchCount (readInt first))
  | _ => none

/-- What a result holds under the path of an entry, read as a type if one is given. -/
def readPayload (v : Validation) (j : Value) : Except Fault Value := do
  let args := argumentsOf j
  let path ← readPath ((args[0]?).getD .null)
  let kind := readKind? ((args[1]?).getD .null)
  Document.evaluateAs v.result.payload path (kind.getD .anything)

end Rehearsal.Script
