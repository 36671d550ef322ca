import Rehearsal.Codec
import Rehearsal.Gherkin.Sentence
import Rehearsal.Number.Numeral
import Rehearsal.Scenario.Word
import Rehearsal.Text.Basic
import Rehearsal.Text.LetterCase
import Rehearsal.Validation
import Rehearsal.Value

/-!
Scenes: the sentences of a feature file played on a scenario.

A sentence that runs a step leaves the validation of its result for the sentences after it, which
judge that result until another step has run. A sentence that begins a step goes on from one that has
run.
-/

/-!
Scalars as feature files write them: words for true, false and null, numbers, and text.

Blanks at the ends do not count, nor does the case of the words. What is no word and no number stands
for itself.
-/

namespace Rehearsal.Gherkin

def trueWords : List String := ["true", "yes", "on"]

def falseWords : List String := ["false", "no", "off"]

def isNumber (digits : List Char) : Bool := !digits.isEmpty && digits.all Text.isDigit

/-- The number that a sign, digits, and perhaps a point and more digits write. -/
def number? (cs : List Char) : Option Value :=
  match Numeral.readInt? cs with
  | some n => some (.int n)
  | none =>
    let (_, rest) := Numeral.takeSign cs
    let whole := rest.takeWhile (· != '.')
    let fraction := (rest.dropWhile (· != '.')).drop 1
    if isNumber whole && isNumber fraction then
      (Numeral.read cs).map fun n => .float n.toBinary64
    else none

/-- Refuses a whole number of more digits than are read. -/
def checkDigits (cs : List Char) : Except Fault Unit :=
  let digits := (Numeral.takeSign cs).2
  if isNumber digits && Json.integerDigitLimit < digits.length then
    .error (.badValue (Json.Flaw.longInteger digits.length).text)
  else .ok ()

/-- The value that a cell of a table or a quoted word stands for. -/
def scalar (s : String) : Except Fault Value :=
  let trimmed := Text.trim s
  let low := Text.lower trimmed
  if trueWords.contains low then .ok (.bool true)
  else if falseWords.contains low then .ok (.bool false)
  else if low = "null" then .ok .null
  else do
    checkDigits trimmed.toList
    return (number? trimmed.toList).getD (.text trimmed)

/-! Playing sentences on a scenario. -/

/-- What may stand under a sentence: a text, and the rows of a table. -/
structure Attachment where
  text : Option String := none
  table : Option (List (List String)) := none
  deriving DecidableEq, Repr, Inhabited

/-- A scenario with the validation of the step that ran last. -/
structure Scene where
  engine : Engine
  validation : Option Validation := none

/-- What playing a sentence does: it may fail, and it changes the scene and the world even so. -/
abbrev Act (σ : Type) (α : Type) := ExceptT Fault (StateM (Scene × σ)) α

namespace Attachment

/-- The text as a body: the JSON value it is, else the text. -/
def body (a : Attachment) : Except Fault Value :=
  match a.text with
  | none => .error (.raised .assertion "This step needs a docstring body")
  | some "" => .error (.raised .assertion "This step needs a docstring body")
  | some text =>
    match Codec.readJson text with
    | .ok value => .ok value
    | .error fault => if fault.kind = .jsonText then .ok (.text text) else .error fault

/-- A row as a message: a key, none if it is empty, and a value. -/
def pairOf (row : List String) : Except Fault Value :=
  match row with
  | key :: value :: _ => do
    return .tuple [if key = "" then .null else .text key, ← scalar value]
  | _ => .error (.raised .missingIndex "list index out of range")

def messages (a : Attachment) : Except Fault Value :=
  match a.table with
  | none => .error (.raised .assertion "This step needs a table")
  | some rows => (rows.mapM fun row => pairOf (row.map Text.trim)).map .list

end Attachment

namespace Deed

/-- What a sentence asserts of the last result, if the value that it names can be read. -/
def assertion? : Deed → Option (Except Fault Assertion)
  | .statusIs code => some (.ok (.status [.int code]))
  | .headerIs name value => some (.ok (.header name (.value (.text value))))
  | .persisted => some (.ok .persisted)
  | .keyIs key => some (.ok (.key (.value (.text key))))
  | .batchCount count => some (.ok (.batchCount count))
  | .succeeds => some (.ok .success)
  | .fails => some (.ok .failure)
  | .pathEquals path value =>
    some ((scalar value).map fun expected =>
      .jsonPath (Path.compile path) none .anything (some expected) none)
  | .pathExists path => some (.ok (.jsonPath (Path.compile path) none .anything none none))
  | _ => none

/-- The modifier that a sentence makes of the step under description. -/
def modifier? : Deed → Option Construction
  | .requestHeader name value => some (.header name (.text value))
  | .queryParam name value => some (.queryParam name (.text value))
  | .bearer token =>
    some (.httpAuth "with_bearer_token" (some (.ofBearer (.text token) (.text "Bearer"))))
  | .basic username password =>
    some (.httpAuth "with_basic_auth" (some (.ofBasic (.text username) (.text password))))
  | .apiKey value => some (.apiKey (.text value) (.text "X-API-Key") (.text "header"))
  | _ => none

end Deed

namespace Scene

variable {σ : Type}

def raise {α : Type} (fault : Fault) : Act σ α := throw fault

def call (run : Runner σ) (c : Call) : Act σ (Option StepResult) := do
  let (scene, world) ← get
  let (outcome, engine, world) := scene.engine.call run world c
  set ({ scene with engine := engine }, world)
  match outcome with
  | .ok result => return result
  | .error fault => throw fault

def construct (run : Runner σ) (c : Construction) : Act σ Unit := do
  let _ ← call run (.construct c)

/-- Leaves a step that has run behind. -/
def goOn (run : Runner σ) : Act σ Unit := do
  let (scene, _) ← get
  if scene.engine.stage = .completed then
    let _ ← call run .advance

def execute (run : Runner σ) : Act σ Unit := do
  match ← call run .execute with
  | some result =>
    modify fun (scene, world) =>
      ({ scene with validation := some (.forResult result true) }, world)
  | none => return

def judge (given : Except Fault Assertion) : Act σ Unit := do
  let (scene, _) ← get
  match scene.validation with
  | none => throw (.raised .assertion "No step has been executed in this scenario yet")
  | some validation =>
    match given.bind validation.assert with
    | .ok _ => return
    | .error fault => throw fault

def part {α : Type} (given : Except Fault α) : Act σ α :=
  match given with
  | .ok a => return a
  | .error fault => throw fault

def sendBare (run : Runner σ) (method : String) : Act σ Unit := do
  let (scene, _) ← get
  let _ ← call run (← part (Word.call scene.engine (Text.lower method)))
  execute run

def sendWithBody (run : Runner σ) (method : String) (attached : Attachment) : Act σ Unit := do
  let verb := Text.lower method
  if !(["post", "put", "patch"].contains verb) then
    throw (.raised .assertion (method ++ " requests do not take a body"))
  construct run (.verb (Text.upper verb) (← part attached.body))
  execute run

/-- Begins a step, modifies it and runs it. -/
def runNew (run : Runner σ) (calls : List Construction) : Act σ Unit := do
  for c in calls do construct run c
  execute run

def perform (run : Runner σ) (attached : Attachment) (deed : Deed) : Act σ Unit := do
  match deed with
  | .resource path => goOn run; construct run (.apiResource path)
  | .chooseTopic topic => goOn run; construct run (.topic (.text topic))
  | .send method => sendBare run method
  | .sendBody method => sendWithBody run method attached
  | .produce => goOn run; runNew run [.produce [← part attached.body]]
  | .produceKeyed key => goOn run; runNew run [.produce [.text key, ← part attached.body]]
  | .produceBatch =>
    let messages ← part attached.messages
    goOn run
    runNew run [.produceBatch messages]
  | .consume => goOn run; runNew run [.consume]
  | .consumeWithin seconds => goOn run; runNew run [.consume, .timeout (.int seconds)]
  | .consumeBatch count => goOn run; runNew run [.consumeBatch count]
  | .save name =>
    let _ ← call run (.saveStep name)
  | deed =>
    match deed.modifier?, deed.assertion? with
    | some c, _ => construct run c
    | none, some given => judge given
    | none, none => return

/-- Plays what a sentence asks for: whether it failed, and the scene and the world after it. -/
def play (run : Runner σ) (scene : Scene) (world : σ) (attached : Attachment) (deed : Deed) :
    Except Fault Unit × Scene × σ :=
  (perform run attached deed).run (scene, world)

end Scene

end Rehearsal.Gherkin
