import Rehearsal.Step.Result
import Rehearsal.Text.Basic
import Rehearsal.Value.Order

/-!
Checks that an assertion applies to what it found.

A check looks at a value or at a whole result and answers with a value, of which only false counts
as a failure, or it fails by itself.
-/

namespace Rehearsal

inductive Subject where
  | value (v : Value)
  | result (r : StepResult)
  deriving Inhabited

inductive Check where
  | equals (v : Value)
  | differs (v : Value)
  | above (v : Value)
  | below (v : Value)
  | startsWith (v : Value)
  | contains (v : Value)
  | hasLength (v : Value)
  | succeeded
  | answers (v : Value)
  | asserts (text : String)
  | fails (text : String)
  | breaks (text : String)
  deriving Repr, Inhabited

namespace Subject

def typeName : Subject → String
  | .value v => v.qualifiedTypeName
  | .result _ => "StepResult"

def evidence : Subject → Evidence
  | .value v => .value v
  | .result _ => .result

end Subject

namespace Check

def noOrder (mark : String) (v : Value) : Fault :=
  .wrongType ("'" ++ mark ++ "' not supported between instances of 'StepResult' and '"
    ++ v.qualifiedTypeName ++ "'")

def noAttribute (subject : Subject) (name : String) : Fault :=
  .raised .missingAttribute
    ("'" ++ subject.typeName ++ "' object has no attribute '" ++ name ++ "'")

def isSame (subject : Subject) (v : Value) : Bool :=
  match subject with
  | .value found => found.same v
  | .result _ => false

def isAbove (subject : Subject) (v : Value) : Except Fault Bool :=
  match subject with
  | .value found => found.isAbove v
  | .result _ => .error (noOrder ">" v)

def isBelow (subject : Subject) (v : Value) : Except Fault Bool :=
  match subject with
  | .value found => found.isBelow v
  | .result _ => .error (noOrder "<" v)

/-- Whether bytes begin with one of several starts; those after the first that fits do not count. -/
def beginsWithBytes (found : List UInt8) : List Value → Except Fault Bool
  | [] => .ok false
  | .bytes start :: rest =>
    if start.isPrefixOf found then .ok true else beginsWithBytes found rest
  | v :: _ =>
    .error (.wrongType ("a bytes-like object is required, not '" ++ v.qualifiedTypeName ++ "'"))

/-- Whether a text begins with one of several starts. -/
def beginsWithText (found : String) : List Value → Except Fault Bool
  | [] => .ok false
  | v :: rest =>
    match v.text? with
    | some start =>
      if start.toList.isPrefixOf found.toList then .ok true else beginsWithText found rest
    | none =>
      .error (.wrongType ("tuple for startswith must only contain str, not "
        ++ v.qualifiedTypeName))

def begins (subject : Subject) (v : Value) : Except Fault Bool :=
  match subject with
  | .value (.bytes found) =>
    match v with
    | .bytes start => .ok (start.isPrefixOf found)
    | .tuple starts => beginsWithBytes found starts
    | _ =>
      .error (.wrongType ("startswith first arg must be bytes or a tuple of bytes, not "
        ++ v.qualifiedTypeName))
  | .value found =>
    match found.text?, v.text? with
    | some s, some start => .ok (start.toList.isPrefixOf s.toList)
    | some s, none =>
      match v with
      | .tuple starts => beginsWithText s starts
      | _ =>
        .error (.wrongType ("startswith first arg must be str or a tuple of str, not "
          ++ v.qualifiedTypeName))
    | none, _ => .error (noAttribute subject "startswith")
  | .result _ => .error (noAttribute subject "startswith")

def holds (subject : Subject) (v : Value) : Except Fault Bool :=
  match subject with
  | .value (.map entries) =>
    match v.keyFlaw? with
    | some type => .error (Fault.noKey type)
    | none => .ok (entries.any fun entry => entry.1.same v)
  | .value (.list items) => .ok (items.any fun item => item.same v)
  | .value (.tuple items) => .ok (items.any fun item => item.same v)
  | .value (.bytes found) =>
    match v with
    | .bytes part => .ok (Text.occursIn part found)
    | .int n =>
      if 0 ≤ n ∧ n < 256 then .ok (found.contains n.toNat.toUInt8)
      else .error (.badValue "byte must be in range(0, 256)")
    | .bool b => .ok (found.contains (if b then 1 else 0))
    | _ =>
      .error (.wrongType ("a bytes-like object is required, not '" ++ v.qualifiedTypeName ++ "'"))
  | .value found =>
    match found.text?, v.text? with
    | some s, some part => .ok (Text.occursIn part.toList s.toList)
    | some _, none =>
      .error (.wrongType ("'in <string>' requires string as left operand, not "
        ++ v.qualifiedTypeName))
    | none, _ =>
      .error (.wrongType ("argument of type '" ++ subject.typeName ++ "' is not iterable"))
  | .result _ => .error (.wrongType "argument of type 'StepResult' is not iterable")

def length (subject : Subject) : Except Fault Nat :=
  match subject with
  | .value (.map entries) => .ok entries.length
  | .value (.list items) => .ok items.length
  | .value (.tuple items) => .ok items.length
  | .value (.bytes bytes) => .ok bytes.length
  | .value found =>
    match found.text? with
    | some s => .ok s.length
    | none =>
      .error (.wrongType ("object of type '" ++ subject.typeName ++ "' has no len()"))
  | .result _ => .error (.wrongType "object of type 'StepResult' has no len()")

def run (check : Check) (subject : Subject) : Except Fault Value :=
  match check with
  | .equals v => .ok (.bool (isSame subject v))
  | .differs v => .ok (.bool (!isSame subject v))
  | .above v => (isAbove subject v).map .bool
  | .below v => (isBelow subject v).map .bool
  | .startsWith v => (begins subject v).map .bool
  | .contains v => (holds subject v).map .bool
  | .hasLength v => (length subject).map fun n => .bool ((Value.int n).same v)
  | .succeeded =>
    match subject with
    | .result r => .ok (.bool r.success)
    | .value _ => .error (noAttribute subject "success")
  | .answers v => .ok v
  | .asserts text => .error (.raised .assertion text)
  | .fails text =>
    .error (.assertionFailure text (some "inner") (.value (.int 1)) (.value (.int 2)) none)
  | .breaks text => .error (.badValue text)

end Check

end Rehearsal
