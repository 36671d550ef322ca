import Rehearsal.Gherkin.Suite
import Rehearsal.Machine
import Rehearsal.Script.Value

/-!
Machines written as JSON: the text files below one folder, the working folder, and the variables that
are set.
-/

namespace Rehearsal.Script

/-- The folder that holds the files. -/
def topFolder : Place := ["<root>"]

def stringsOf (j : Value) : List (String × String) :=
  (entriesOf j).filterMap fun (name, value) => value.text?.map fun text => (name, text)

def machine (j : Value) : Machine :=
  let top : Machine := { folder := topFolder }
  let place (text : String) : Place := top.resolve (FilePath.ofText text)
  { folder := place (textOf (field j "cwd"))
    files := (stringsOf (field j "files")).map fun (name, text) => (place name, text)
    environment := stringsOf (field j "env") }

def setVariable (m : Machine) (name : String) (value : Value) : Machine :=
  match value.text? with
  | some text => { m with environment := Keyed.put m.environment name text }
  | none => { m with environment := Keyed.erase m.environment name }

def suiteOptions (j : Value) : Gherkin.Options :=
  ⟨(field j "settings").text?, (field j "env").text?, (field j "log_level").text?⟩

end Rehearsal.Script
