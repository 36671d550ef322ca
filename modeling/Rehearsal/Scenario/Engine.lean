import Rehearsal.Execution
import Rehearsal.Fault
import Rehearsal.Keyed
import Rehearsal.Step.Change
import Rehearsal.Text.Basic
import Rehearsal.Text.LetterCase

/-!
A scenario: the step being described, its result once it has run, and the steps that ran before.

A step is described while the scenario is building, runs once, and then stays with its result until
the next one is begun. A run that fails puts the scenario back to building, so the description can be
mended.
-/

/-!
What the steps of a scenario share: properties by name, and executed steps saved under names.

The name of a saved step is looked up in lower case and shown as it was last written.
-/

namespace Rehearsal

abbrev Properties := Keyed String Value

namespace Properties

def ofKind? (properties : Properties) (key : String) (kind : Kind) : Option Value :=
  match Keyed.get? properties key with
  | none => none
  | some .null => none
  | some value => if value.isA kind then some value else none

def require (properties : Properties) (key : String) (kind : Kind) : Except Fault Value :=
  match ofKind? properties key kind with
  | some value => .ok value
  | none =>
    match Keyed.get? properties key with
    | some value => .error (.configuration (.propertyOfOtherType key value.typeName kind.name))
    | none => .error (.configuration (.propertyMissing key))

end Properties

/-- Contents saved under names, which differ even without their case. -/
structure SavedSteps (α : Type) where
  entries : Keyed String (String × α)

namespace SavedSteps

variable {α : Type}

def empty : SavedSteps α := ⟨[]⟩

def names (s : SavedSteps α) : List String := s.entries.map (·.2.1)

def get? (s : SavedSteps α) (name : String) : Option (String × α) :=
  Keyed.get? s.entries (Text.lower name)

def save (s : SavedSteps α) (name : String) (content : α) : Except Fault (SavedSteps α) :=
  if Text.isBlankText name then .error (.configuration .unnamedStep)
  else .ok ⟨Keyed.put s.entries (Text.lower name) (name, content)⟩

def find (s : SavedSteps α) (name : String) : Except Fault (String × α) :=
  match s.get? name with
  | some saved => .ok saved
  | none =>
    .error (.raised .missingKey
      ("No step saved as '" ++ name ++ "'; saved steps: " ++ Text.quotedList s.names))

end SavedSteps

structure Context (α : Type) where
  properties : Properties
  steps : SavedSteps α

namespace Context

variable {α : Type}

def empty : Context α := ⟨[], .empty⟩

def set (c : Context α) (key : String) (value : Value) : Context α :=
  { c with properties := Keyed.put c.properties key value }

def remove (c : Context α) (key : String) : Context α :=
  { c with properties := Keyed.erase c.properties key }

end Context

end Rehearsal

namespace Rehearsal

/-! Scenarios and their steps. -/

inductive Stage where
  | building
  | executing
  | completed
  deriving DecidableEq, Repr, Inhabited

def Stage.text : Stage → String
  | .building => "building"
  | .executing => "executing"
  | .completed => "completed"

structure ExecutedStep where
  step : Step
  result : StepResult
  deriving Inhabited

structure Engine where
  settings : Settings
  stage : Stage := .building
  current : Option Step := none
  result : Option StepResult := none
  history : List ExecutedStep := []
  context : Context ExecutedStep := .empty

/-- How a step is run: what comes of it, and the scenario and the world afterwards. Calls that arrive
while the step is running may change the scenario, so a runner takes it and gives it back. -/
abbrev Runner (σ : Type) := Step → Engine → σ → Except Fault StepResult × Engine × σ

/-- Runs steps without any call in between. -/
def World.runner : Runner World := fun step engine world =>
  let (outcome, world) := world.run engine.settings step
  (outcome, engine, world)

namespace Engine

variable {σ : Type}

def checkBuilding (e : Engine) (operation : String) : Except Fault Unit :=
  match e.stage with
  | .building => .ok ()
  | .completed => .error (.scenarioState (.completed operation))
  | .executing => .error (.scenarioState (.executing operation))

/-- The step under description, if it is of one of these kinds. -/
def require (e : Engine) (operation : String) (accepted : List Variant) : Except Fault Step := do
  e.checkBuilding operation
  match e.current with
  | none => throw (.configuration (.noStep operation))
  | some step =>
    if accepted.contains step.variant then return step
    else throw (.incompatibleStep operation step.variant.name (accepted.map (·.name)))

def setStep (e : Engine) (step : Step) : Engine := { e with current := some step }

/-- Changes fields of the step under description. -/
def evolve (e : Engine) (operation : String) (accepted : List Variant)
    (changes : List StepChange) : Except Fault Engine := do
  let step ← e.require operation accepted
  return e.setStep (← step.evolve changes)

def finish (e : Engine) (step : Step) (outcome : Except Fault StepResult) : Engine :=
  match outcome with
  | .ok result =>
    { e with
      stage := .completed
      result := some result
      history := e.history ++ [⟨step, result⟩] }
  | .error _ => { e with stage := .building }

/-- Runs the step under description; a step that has run is not run again. -/
def execute (run : Runner σ) (e : Engine) (world : σ) : Except Fault StepResult × Engine × σ :=
  match e.stage with
  | .executing => (.error (.scenarioState (.executing "execute")), e, world)
  | .completed =>
    match e.result with
    | some result => (.ok result, e, world)
    | none => (.error (.configuration .nothingToExecute), e, world)
  | .building =>
    match e.current with
    | none => (.error (.configuration .nothingToExecute), e, world)
    | some step =>
      let (outcome, e, world) := run step { e with stage := .executing } world
      (outcome, e.finish step outcome, world)

/-- The scenario ready for its next step. -/
def afresh (e : Engine) : Engine :=
  { e with stage := .building, current := none, result := none }

/-- Goes on to the next step, running first a step that has been described but not run. -/
def advance (run : Runner σ) (e : Engine) (world : σ) : Except Fault Unit × Engine × σ :=
  if e.stage = .building ∧ e.current.isSome then
    match e.execute run world with
    | (.error fault, e, world) => (.error fault, e, world)
    | (.ok _, e, world) => (.ok (), e.afresh, world)
  else (.ok (), e.afresh, world)

/-- The context with the step that has run saved under a name. -/
def saved (e : Engine) (name : String) (step : Step) (result : StepResult) :
    Except Fault Engine := do
  return { e with
    context := { e.context with steps := ← e.context.steps.save name ⟨step, result⟩ } }

/-- Saves the current step with its result, running it first if it has not run. -/
def saveStep (run : Runner σ) (e : Engine) (name : String) (world : σ) :
    Except Fault Unit × Engine × σ :=
  if e.current.isNone then (.error (.configuration .nothingToSave), e, world)
  else
    match e.execute run world with
    | (.error fault, e, world) => (.error fault, e, world)
    | (.ok _, e, world) =>
      match e.current, e.result with
      | some step, some result =>
        match e.saved name step result with
        | .ok e => (.ok (), e, world)
        | .error fault => (.error fault, e, world)
      | _, _ => (.error (.configuration .nothingToSave), e, world)

def results (e : Engine) : List (String × StepResult) :=
  e.context.steps.names.filterMap fun name =>
    (e.context.steps.get? name).map fun found => (name, found.2.result)

end Engine

end Rehearsal
