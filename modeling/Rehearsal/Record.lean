import Rehearsal.Fault

/-!
Records built from named values.

Each name must be a field of the record, and each field that has no default must be given. An
unknown name is reported before a missing one.
-/

namespace Rehearsal

/-- Names in quotes, with an "and" before the last one. -/
def enumerated : List String → String
  | [] => ""
  | [a] => a
  | [a, b] => a ++ " and " ++ b
  | names => String.intercalate ", " (names.dropLast) ++ ", and " ++ (names.getLast?).getD ""

/-- The fields of a record type: those that must be given, and those that have a default. -/
structure RecordShape where
  name : String
  required : List String
  optional : List String
  deriving DecidableEq, Repr

namespace RecordShape

def fields (shape : RecordShape) : List String := shape.required ++ shape.optional

def namedEntries : List (Value × Value) → Except String (List (String × Value))
  | [] => .ok []
  | (key, value) :: rest =>
    match key.text? with
    | some name => (namedEntries rest).map ((name, value) :: ·)
    | none => .error "keywords must be strings"

/-- What is said of arguments that are missing. -/
def missingText (missing : List String) : String :=
  "missing " ++ toString missing.length ++ " required positional argument"
    ++ (if missing.length = 1 then "" else "s") ++ ": " ++ enumerated (missing.map Text.quoted)

/-- Why entries do not build a record, or the entries by name. -/
def bind (shape : RecordShape) (entries : List (Value × Value)) :
    Except String (List (String × Value)) :=
  match namedEntries entries with
  | .error why => .error why
  | .ok given =>
    match given.find? fun entry => !shape.fields.contains entry.1 with
    | some (name, _) =>
      .error (shape.name ++ ".__init__() got an unexpected keyword argument " ++ Text.quoted name)
    | none =>
      match shape.required.filter fun name => !(given.any (·.1 == name)) with
      | [] => .ok given
      | missing => .error (shape.name ++ ".__init__() " ++ missingText missing)

def build (shape : RecordShape) : Value → Except Fault Value
  | .map entries =>
    match shape.bind entries with
    | .error why => .error (.wrongType why)
    | .ok given =>
      .ok (.record shape.name
        (shape.fields.map fun name => (name, ((given.find? (·.1 == name)).map (·.2)).getD .null)))
  | value =>
    .error (.wrongType
      (shape.name ++ "() argument after ** must be a mapping, not " ++ value.typeName))

end RecordShape

end Rehearsal
