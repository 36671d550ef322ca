import Rehearsal.Http.Request
import Rehearsal.Json.Writer
import Rehearsal.Keyed
import Rehearsal.Scenario.Engine

/-!
Reports of what a scenario executed.

A report lists the steps in the order in which they ran, with the values of sensitive headers
hidden. It is printed over several lines, and kept in a file as one line after what the file holds.
-/

namespace Rehearsal

namespace StepResult

def redactedHeaders (headers : List (String × List Value)) : List (String × List Value) :=
  headers.map fun (name, values) =>
    (name, if Headers.isSensitive name then [.text "***"] else values)

mutual

/-- A result with the values of sensitive headers hidden, in its items too. -/
def redacted (r : StepResult) : StepResult :=
  match r with
  | ⟨kind, success, statusCode, delivery, payload, headers, properties, errors, error, metadata,
      items⟩ =>
    ⟨kind, success, statusCode, delivery, payload, redactedHeaders headers, properties, errors,
      error, metadata, redactedItems items⟩

def redactedItems : List StepResult → List StepResult
  | [] => []
  | r :: rest => redacted r :: redactedItems rest

end

end StepResult

namespace Report

def entry (executed : ExecutedStep) : Value :=
  .ofFields (executed.result.redacted.report ++
    [("step", .text executed.step.variant.name), ("target", .text executed.step.target)])

/-- The report of a scenario made at some moment. -/
def build (now : Instant) (scenario : String) (history : List ExecutedStep) : Value :=
  .ofFields [("scenario", .text scenario), ("created_at_ms", .int now.epochMillis),
    ("ok", .bool (history.all (·.result.success))), ("steps", .list (history.map entry))]

def lineStyle : Json.Style := .plain

def printedStyle : Json.Style := { Json.Style.plain with indent := some "  " }

end Report

/-- Where reports go: texts printed, and files with the text in them. -/
structure Outlet where
  printed : List String := []
  files : Keyed String String := []
  deriving Repr, Inhabited

namespace Outlet

def content (o : Outlet) (path : String) : String := (Keyed.get? o.files path).getD ""

def extend (o : Outlet) (path : String) (more : String) : Outlet :=
  { o with files := Keyed.put o.files path (o.content path ++ more) }

def print (o : Outlet) (report : Value) : Except Fault Outlet := do
  let text ← Json.text Report.printedStyle report
  return { o with printed := o.printed ++ [text] }

/-- Keeps a report as one more line of a file. The file is opened first, so it is there even if the
report cannot be written. -/
def append (o : Outlet) (path : String) (report : Value) : Except Fault Unit × Outlet :=
  match Json.text Report.lineStyle report with
  | .error fault => (.error fault, o.extend path "")
  | .ok line => (.ok (), o.extend path (line ++ "\n"))

/-- Prints a report and keeps it in a file, as the settings say. -/
def write (o : Outlet) (settings : ExportSettings) (report : Value) : Except Fault Unit × Outlet :=
  match if settings.console then o.print report else .ok o with
  | .error fault => (.error fault, o)
  | .ok o =>
    if !settings.jsonPath.truthy then (.ok (), o)
    else
      match settings.jsonPath.text? with
      | some path => o.append path report
      | none =>
        (.error (.wrongType ("expected str, bytes or os.PathLike object, not "
          ++ settings.jsonPath.typeName)), o)

end Outlet

end Rehearsal
