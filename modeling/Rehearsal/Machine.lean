import Rehearsal.Keyed
import Rehearsal.Text.Basic

/-!
The machine a run is on: where in the tree of folders it works, the text files there are, and the
variables of its environment.

A folder exists if it holds a file or the working folder, however deep below. A path goes from folder
to folder and cannot pass through one that does not exist.
-/

namespace Rehearsal

/-- A path to a file: its steps, from the root of the tree or from the working folder. -/
structure FilePath where
  absolute : Bool
  steps : List String
  deriving DecidableEq, Repr, Inhabited

namespace FilePath

def ofText (s : String) : FilePath :=
  let steps := (Text.parts '/' s.toList).map String.ofList
  ⟨s.toList.head? == some '/', steps.filter fun step => step != "" && step != "."⟩

def text (p : FilePath) : String :=
  match p.absolute, p.steps with
  | false, [] => "."
  | false, steps => String.intercalate "/" steps
  | true, steps => "/" ++ String.intercalate "/" steps

end FilePath

/-- A place in the tree of folders, as the names on the way to it from the root. -/
abbrev Place := List String

namespace Place

def enter (place : Place) (step : String) : Place :=
  if step = ".." then place.dropLast else place ++ [step]

def path (place : Place) : FilePath := ⟨true, place⟩

end Place

structure Machine where
  folder : Place := []
  files : Keyed Place String := []
  environment : Keyed String String := []
  deriving Repr, Inhabited

namespace Machine

/-- The value of a variable that is set and not empty. -/
def setting? (m : Machine) (name : String) : Option String :=
  (Keyed.get? m.environment name).filter (· != "")

def start (m : Machine) (p : FilePath) : Place := if p.absolute then [] else m.folder

/-- The place that a path names, whether or not there is anything. -/
def resolve (m : Machine) (p : FilePath) : Place := p.steps.foldl Place.enter (m.start p)

def isFolder (m : Machine) (place : Place) : Bool :=
  place.isPrefixOf m.folder
    || m.files.any fun file => place.isPrefixOf file.1 && place.length < file.1.length

/-- The place that a path leads to through folders that exist. -/
def reach? (m : Machine) (p : FilePath) : Option Place :=
  p.steps.foldlM (fun place step => if m.isFolder place then some (place.enter step) else none)
    (m.start p)

def contents? (m : Machine) (p : FilePath) : Option String :=
  (m.reach? p).bind (Keyed.get? m.files)

theorem resolve_of_reach {m : Machine} {p : FilePath} {place : Place}
    (h : m.reach? p = some place) : m.resolve p = place := by
  unfold reach? at h
  unfold resolve
  generalize m.start p = here at h ⊢
  generalize p.steps = steps at h ⊢
  induction steps generalizing here with
  | nil => exact Option.some.inj h
  | cons step rest ih =>
    rw [List.foldlM_cons] at h
    by_cases hf : m.isFolder here
    · simp only [hf, if_true] at h
      exact ih (here.enter step) h
    · simp [hf] at h

end Machine

end Rehearsal
