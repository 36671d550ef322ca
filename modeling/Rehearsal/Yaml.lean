import Rehearsal.Value.Same
import Rehearsal.Yaml.Node
import Rehearsal.Yaml.Scalar

/-!
The value that a YAML text holds.

Of two entries with one key the last wins, at the place of the first. A merge key stands for the
entries of other mappings; they come first, so that the mapping's own entries win.
-/

namespace Rehearsal.Yaml

namespace Node

mutual

def scalarText? : Node → Option String
  | .scalar _ text => some text
  | .mapping _ entries => standIn? entries
  | .sequence _ _ => none

def standIn? : List (Node × Node) → Option String
  | [] => none
  | (key, value) :: rest => if key matches .scalar .standIn _ then scalarText? value else standIn? rest

end

/-- A set, of which nothing but its type is looked at. -/
def setOf (members : List (Value × Value)) : Value :=
  .record "set" (members.map fun member => (member.1.display, .null))

/-- The entries that merge keys bring in, and a mapping's own. -/
structure Entries where
  merged : List (Value × Value)
  own : List (Value × Value)
  deriving Repr, Inhabited

def Entries.all (e : Entries) : List (Value × Value) := e.merged ++ e.own

mutual

def value : Node → Reading
  | .scalar tag text => Scalar.value tag text
  | .sequence tag items =>
    match tag with
    | .sequence => do return .list (← values items)
    | .orderedMapping => do return .list (← pairs items)
    | .pairs => do return .list (← pairs items)
    | _ => .error .malformed
  | .mapping tag entries =>
    match tag with
    | .mapping => do return Value.mapOf (← entriesOf entries).all
    | .set => do return setOf (← entriesOf entries).all
    | .sequence => .error .malformed
    | .orderedMapping => .error .malformed
    | .pairs => .error .malformed
    | tag =>
      match standIn? entries with
      | some text => Scalar.value tag text
      | none => .error .malformed

def values : List Node → Except Refusal (List Value)
  | [] => .ok []
  | node :: rest => do return (← value node) :: (← values rest)

/-- Mappings of one entry each, as pairs. -/
def pairs : List Node → Except Refusal (List Value)
  | [] => .ok []
  | .mapping _ [(key, item)] :: rest => do
    let pair := Value.tuple [← value key, ← value item]
    return pair :: (← pairs rest)
  | _ => .error .malformed

def entriesOf : List (Node × Node) → Except Refusal Entries
  | [] => .ok ⟨[], []⟩
  | (.scalar .merge _, below) :: rest => do
    let merged ← mergedOf below
    let others ← entriesOf rest
    return ⟨merged ++ others.merged, others.own⟩
  | (.scalar .standIn text, item) :: rest => do
    let item ← value item
    let others ← entriesOf rest
    return ⟨others.merged, (.text text, item) :: others.own⟩
  | (key, item) :: rest => do
    let key ← value key
    if key.keyFlaw?.isSome then throw .malformed
    let item ← value item
    let others ← entriesOf rest
    return ⟨others.merged, (key, item) :: others.own⟩

/-- What a merge key brings in: the entries of a mapping, or of several, the first one's last. -/
def mergedOf : Node → Except Refusal (List (Value × Value))
  | .mapping _ entries => do return (← entriesOf entries).all
  | .sequence _ items => mergedFrom items
  | .scalar _ _ => .error .malformed

def mergedFrom : List Node → Except Refusal (List (Value × Value))
  | [] => .ok []
  | .mapping _ entries :: rest => do
    let first ← entriesOf entries
    return (← mergedFrom rest) ++ first.all
  | _ => .error .malformed

end

end Node

def read (text : String) : Reading :=
  match (Token.ofText? text).bind Node.ofTokens? with
  | some node => node.value
  | none => .error .malformed

end Rehearsal.Yaml
