import Rehearsal.Value

/-!
Equality of values.

Numbers of every type are compared by exact value, truth values counting as 0 and 1; lists and
tuples elementwise and never with each other; mappings by keys and values, whatever the order of
their entries; records by type and fields.
-/

namespace Rehearsal.Value

mutual

def same : Value → Value → Bool
  | .null, .null => true
  | .bytes a, .bytes b => a == b
  | .list a, .list b => sameItems a b
  | .tuple a, .tuple b => sameItems a b
  | .map a, .map b => a.length == b.length && sameEntries a b
  | .instant a, .instant b => a.same b
  | .span a, .span b => a == b
  | .date a, .date b => a == b
  | .record type a, .record other b => type == other && sameFields a b
  | .text a, b => b.text? == some a
  | .status a, b => b.text? == some a.text
  | .object, .object => true
  | .bool a, b => sameNumber (.ofInt (if a then 1 else 0)) b
  | .int a, b => sameNumber (.ofInt a) b
  | .float a, b => sameNumber (.ofBinary64 a) b
  | .decimal a, b => sameNumber a b
  | _, _ => false

def sameNumber (a : Decimal) (b : Value) : Bool :=
  match b.number? with
  | some b => a.equal b
  | none => false

def sameItems : List Value → List Value → Bool
  | [], [] => true
  | a :: as, b :: bs => a.same b && sameItems as bs
  | _, _ => false

/-- Whether each entry of the first list has a counterpart in the second. -/
def sameEntries : List (Value × Value) → List (Value × Value) → Bool
  | [], _ => true
  | (key, value) :: rest, others =>
    others.any (fun other => key.same other.1 && value.same other.2) && sameEntries rest others

def sameFields : List (String × Value) → List (String × Value) → Bool
  | [], [] => true
  | (name, a) :: as, (other, b) :: bs => name == other && a.same b && sameFields as bs
  | _, _ => false

end

mutual

/-- Whether two values are one and the same. What is not a number is no equal of itself, but it is
the same. -/
def identical : Value → Value → Bool
  | .null, .null => true
  | .bool a, .bool b => a == b
  | .int a, .int b => a == b
  | .float a, .float b => a == b
  | .decimal a, .decimal b => a == b
  | .text a, .text b => a == b
  | .bytes a, .bytes b => a == b
  | .list a, .list b => identicalItems a b
  | .tuple a, .tuple b => identicalItems a b
  | .map a, .map b => identicalEntries a b
  | .instant a, .instant b => a == b
  | .span a, .span b => a == b
  | .date a, .date b => a == b
  | .record type a, .record other b => type == other && identicalFields a b
  | .status a, .status b => a == b
  | .object, .object => true
  | _, _ => false

def identicalItems : List Value → List Value → Bool
  | [], [] => true
  | a :: as, b :: bs => a.identical b && identicalItems as bs
  | _, _ => false

def identicalEntries : List (Value × Value) → List (Value × Value) → Bool
  | [], [] => true
  | (key, a) :: as, (other, b) :: bs =>
    key.identical other && a.identical b && identicalEntries as bs
  | _, _ => false

def identicalFields : List (String × Value) → List (String × Value) → Bool
  | [], [] => true
  | (name, a) :: as, (other, b) :: bs => name == other && a.identical b && identicalFields as bs
  | _, _ => false

end

mutual

def keyFlaw? : Value → Option String
  | .list _ => some "list"
  | .map _ => some "dict"
  | .record type _ => some type
  | .tuple items => keyFlawIn? items
  | _ => none

def keyFlawIn? : List Value → Option String
  | [] => none
  | item :: rest => (keyFlaw? item).or (keyFlawIn? rest)

end

def lookup? (entries : List (Value × Value)) (key : Value) : Option Value :=
  (entries.find? fun entry => entry.1.same key).map (·.2)

/-- Entries with a value put under a key: in place if the key is there, else at the end. -/
def insert (key value : Value) : List (Value × Value) → List (Value × Value)
  | [] => [(key, value)]
  | entry :: rest =>
    if entry.1.same key then (entry.1, value) :: rest else entry :: insert key value rest

/-- A mapping built entry by entry. -/
def mapOf (entries : List (Value × Value)) : Value :=
  .map (entries.foldl (fun made entry => insert entry.1 entry.2 made) [])

end Rehearsal.Value
