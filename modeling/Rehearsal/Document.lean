import Rehearsal.Json.Reader
import Rehearsal.Path
import Rehearsal.Text.Utf8

/-!
Documents and what a path finds in them.

A document is JSON text, JSON bytes or a value in memory; loading it gives one tree. A path is
followed segment by segment, and a failure names the shortest part of the path that leads nowhere.
A record met on the way counts as the mapping of its fields.
-/

namespace Rehearsal

namespace Value

mutual

/-- A value with every record in it replaced by the mapping of its fields. -/
def expand : Value → Value
  | .record _ fields => .map (expandFields fields)
  | .list items => .list (expandItems items)
  | .tuple items => .tuple (expandItems items)
  | .map entries => .map (expandEntries entries)
  | value => value

def expandItems : List Value → List Value
  | [] => []
  | item :: rest => item.expand :: expandItems rest

def expandEntries : List (Value × Value) → List (Value × Value)
  | [] => []
  | (key, value) :: rest => (key.expand, value.expand) :: expandEntries rest

def expandFields : List (String × Value) → List (Value × Value)
  | [] => []
  | (name, value) :: rest => (.text name, value.expand) :: expandFields rest

end

def opened : Value → Value
  | .record type fields => expand (.record type fields)
  | value => value

/-- How a message calls a node of a document. -/
def nodeKind : Value → String
  | .null => "null"
  | .map _ => "object"
  | .list _ => "array"
  | .tuple _ => "array"
  | value => value.typeName

def items? : Value → Option (List Value)
  | .list items => some items
  | .tuple items => some items
  | _ => none

end Value

namespace Document

def loadText (text : String) : Except Fault Value :=
  if Text.isBlankText text then .error (.emptyDocument "Document is empty")
  else
    match Json.read .exact text with
    | .error e =>
      match e.flaw with
      | .longInteger _ => .error (.badValue e.message)
      | .decimalLimit => .error (.raised .decimalLimit e.message)
      | _ => .error (.malformedDocument ("Document is not valid JSON: " ++ e.message))
    | .ok .null => .error (.emptyDocument "Document is JSON null")
    | .ok tree => .ok tree

/-- The tree of a document. -/
def load : Value → Except Fault Value
  | .null => .error (.emptyDocument "Document is empty (None)")
  | .bytes bytes =>
    match Utf8.decode bytes with
    | .ok text => loadText text
    | .error e => .error (.malformedDocument ("Document is not UTF-8 encoded: " ++ e.message))
  | .text text => loadText text
  | .status status => loadText status.text
  | value => .ok value.opened

/-- The node one segment below a node, or why there is none. -/
def step (segment : Segment) (node : Value) : Except String Value :=
  match segment with
  | .field name =>
    match node with
    | .map entries =>
      match Value.fieldIn? name entries with
      | some value => .ok value
      | none => .error ("field '" ++ name ++ "' does not exist")
    | _ => .error ("expected an object, found " ++ node.nodeKind)
  | .index n =>
    match node.items? with
    | some items =>
      match items[n]? with
      | some value => .ok value
      | none =>
        .error ("index " ++ toString n ++ " out of range (length " ++ toString items.length ++ ")")
    | none => .error ("expected an array, found " ++ node.nodeKind)

/-- Follows the segments that are left after the first `depth` of a path. -/
def follow (path : Path) (depth : Nat) (node : Value) : List Segment → Except Fault Value
  | [] => .ok node
  | segment :: rest =>
    match step segment node.opened with
    | .error reason => .error (.pathNotFound path.text (path.upTo (depth + 1)) reason)
    | .ok next => follow path (depth + 1) next rest

/-- The value a path leads to in a document. -/
def evaluate (document : Value) (path : Path) : Except Fault Value :=
  match load document with
  | .error fault => .error fault
  | .ok tree => follow path 0 tree path.segments

end Document

end Rehearsal
