import Rehearsal.Machine
import Rehearsal.Number.Numeral
import Rehearsal.Settings.Reading
import Rehearsal.Text.LetterCase
import Rehearsal.Yaml

/-!
Settings from the files and variables of a machine.

A file may be named; otherwise one is looked for in the working folder and a few folders above it,
and without one the defaults hold. Variables of the environment have the last word.
-/

/-!
Placeholders in a settings file, which stand for variables of the environment.

A placeholder names a variable after a dollar sign, an opening brace and `ENV:`, up to a closing
brace. One that is not set leaves nothing behind, and what a variable holds is not searched for
placeholders again.
-/

namespace Rehearsal.Settings

def opening : List Char := "$\x7bENV:".toList

def closing : Char := '\x7d'

def beginsName (c : Char) : Bool := c.isAlpha || c == '_'

def continuesName (c : Char) : Bool := c.isAlphanum || c == '_'

/-- The name in a placeholder whose opening has been passed. -/
def nameAt? (cs : List Char) : Option (List Char) :=
  let name := cs.takeWhile continuesName
  if name.head?.any beginsName && (cs.drop name.length).head? == some closing then some name
  else none

/-- The name in the placeholder at the front of a text, if there is one. -/
def placeholder? (cs : List Char) : Option (List Char) :=
  if opening.isPrefixOf cs then nameAt? (cs.drop opening.length) else none

/-- A text with its placeholders replaced, from `skip` characters on. -/
def filled (m : Machine) : Nat → List Char → List Char
  | _, [] => []
  | skip + 1, _ :: rest => filled m skip rest
  | 0, c :: rest =>
    match placeholder? (c :: rest) with
    | some name =>
      ((Keyed.get? m.environment (String.ofList name)).getD "").toList
        ++ filled m (opening.length + name.length) rest
    | none => c :: filled m 0 rest

def fill (m : Machine) (text : String) : String := String.ofList (filled m 0 text.toList)

/-- A text without a dollar sign has no placeholders. -/
theorem filled_eq_self (m : Machine) {cs : List Char} (h : '$' ∉ cs) : filled m 0 cs = cs := by
  induction cs with
  | nil => rfl
  | cons c rest ih =>
    have hc : c ≠ '$' := fun hc => h (by simp [hc])
    have hr : '$' ∉ rest := fun hr => h (by simp [hr])
    have hp : placeholder? (c :: rest) = none := by
      have : opening = '$' :: opening.tail := by decide
      unfold placeholder?
      rw [this]
      simp [List.isPrefixOf, Ne.symm hc]
    simp [filled, hp, ih hr]

/-! Files and variables. -/

def fileNames : List String := ["assured.yaml", "assured.yml", "assured.json"]

/-- How many folders above the first one are searched. -/
def foldersAbove : Nat := 3

def candidates (here : Place) : List Place :=
  (List.range (foldersAbove + 1)).flatMap fun up =>
    if up ≤ here.length then fileNames.map fun name => here.take (here.length - up) ++ [name]
    else []

def find? (m : Machine) (here : Place) : Option Place :=
  (candidates here).find? fun place => Keyed.has m.files place

/-- The file to read, if there is one; a file that is named must exist. -/
def fileOf (m : Machine) (named : Option String) : Except Fault (Option FilePath) :=
  match (named.filter (· != "")).or (m.setting? "ASSURED_SETTINGS_PATH") with
  | some text =>
    let path := FilePath.ofText text
    if (m.contents? path).isSome then .ok (some path)
    else .error (.configuration (.settingsNotFound path.text))
  | none => .ok ((find? m m.folder).map Place.path)

/-- Lines of a file, whatever ends them in it, each with one and the same end. -/
def unifyLineEnds : List Char → List Char
  | '\r' :: '\n' :: rest => '\n' :: unifyLineEnds rest
  | '\r' :: rest => '\n' :: unifyLineEnds rest
  | c :: rest => c :: unifyLineEnds rest
  | [] => []

/-- The tree that a file holds; one that counts as absent is an empty mapping. -/
def treeOf (m : Machine) (path : FilePath) : Except Fault Value :=
  let text := String.ofList (unifyLineEnds ((m.contents? path).getD "").toList)
  match Yaml.read (fill m text) with
  | .ok tree => .ok (if tree.truthy then tree else .map [])
  | .error .malformed => .error (.configuration (.settingsNotParsed path.text))
  | .error (.impossible fault) => .error fault

/-- A variable without the blanks around it, unless nothing is left. -/
def trimmed? (m : Machine) (name : String) : Option String :=
  ((Keyed.get? m.environment name).map Text.trim).filter (· != "")

/-- The timeout that a variable of the environment gives, else the one that is set. -/
def timeoutBy (m : Machine) (timeout : Binary64) : Except Fault Binary64 :=
  match m.setting? "ASSURED_HTTP_TIMEOUT_SECONDS" with
  | none => .ok timeout
  | some text =>
    match Numeral.readBinary64? text with
    | some seconds => .ok seconds
    | none => .error (.configuration (.timeoutNotNumber text))

/-- Settings with those that variables of the environment give in their place. -/
def overridden (m : Machine) (s : Settings) : Except Fault Settings := do
  let timeout ← timeoutBy m s.http.timeout
  let verify := (m.setting? "ASSURED_HTTP_VERIFY_TLS").map fun text => Text.lower text == "true"
  return { s with
    http := { s.http with
      baseUrl := (trimmed? m "ASSURED_BASE_URL").getD s.http.baseUrl
      timeout := timeout
      verifyTls := verify.getD s.http.verifyTls }
    broker := { s.broker with
      bootstrapServers := (trimmed? m "ASSURED_BOOTSTRAP_SERVERS").getD s.broker.bootstrapServers } }

/-- The environment that is named, else that of the variable. -/
def environmentOf (m : Machine) (environment : Option String) : Option String :=
  (environment.filter (· != "")).or (m.setting? "ASSURED_ENV")

/-- The tree that settings are read from, and the file it is in, if there is one. -/
def treeRead (m : Machine) (named : Option String) : Except Fault (Value × Option FilePath) := do
  match ← fileOf m named with
  | some path => return (← treeOf m path, some path)
  | none => return (.map [], none)

/-- The settings of a run on a machine, from a file and within an environment if they are named. -/
def load (m : Machine) (named environment : Option String) : Except Fault Settings := do
  let (tree, file) ← treeRead m named
  let made ← ofValue tree (environmentOf m environment)
  overridden m { made with source := file.map (·.text) }

end Rehearsal.Settings
