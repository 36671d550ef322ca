import Rehearsal.Keyed
import Rehearsal.Yaml.Tag
import Rehearsal.Yaml.Token

/-!
The tree that the tokens of a text make.

Every node has a tag, given or found by its looks. A node may be given a name, by which it stands
again at a later place. A place where a node may be left out holds a null.
-/

namespace Rehearsal.Yaml

inductive Node where
  | scalar (tag : Tag) (text : String)
  | sequence (tag : Tag) (items : List Node)
  | mapping (tag : Tag) (entries : List (Node × Node))
  deriving Repr, Inhabited

namespace Node

/-- What stands where a node is left out. -/
def nothing : Node := .scalar .null ""

/-- The tokens still to come, what the handles of tags stand for, and the nodes with names; of a node
that is still being read only the name is known. -/
structure State where
  tokens : List Token
  handles : Keyed String String
  named : Keyed String (Option Node) := []
  deriving Repr, Inhabited

abbrev Read := State → Option (Node × State)

namespace State

def next (s : State) (p : Token → Bool) : Bool := s.tokens.head?.any p

def drop (s : State) : State := { s with tokens := s.tokens.tail }

def skip (s : State) (t : Token) : State := if s.next (· == t) then s.drop else s

def nodeOf (s : State) (name : String) : Option Node :=
  (Keyed.get? s.named name).map fun node? => node?.getD nothing

def reserve (s : State) : Option String → Option State
  | none => some s
  | some name =>
    if Keyed.has s.named name then none else some { s with named := Keyed.put s.named name none }

def keep (s : State) (node : Node) : Option String → State
  | none => s
  | some name => { s with named := Keyed.put s.named name (some node) }

end State

/-! Properties -/

/-- The whole text of a tag; its handle must be known. -/
def tagText? (s : State) (written : TagText) : Option String :=
  match written.handle with
  | none => some written.suffix
  | some handle => (Keyed.get? s.handles handle).map (· ++ written.suffix)

/-- The name and the tag in front of a node, in either order. -/
def properties (s : State) : Option (Option String × Option String × State) :=
  match s.tokens with
  | .anchor name :: .tag written :: rest =>
    (tagText? s written).map fun text => (some name, some text, { s with tokens := rest })
  | .tag written :: .anchor name :: rest =>
    (tagText? s written).map fun text => (some name, some text, { s with tokens := rest })
  | .anchor name :: rest => some (some name, none, { s with tokens := rest })
  | .tag written :: rest =>
    (tagText? s written).map fun text => (none, some text, { s with tokens := rest })
  | _ => some (none, none, s)

def anyTag : String := "!"

def scalarTag (tag : Option String) (plain : Bool) (text : String) : Tag :=
  match tag with
  | none => if plain then Tag.ofPlain text else .text
  | some tag => if tag = anyTag then Tag.ofPlain text else Tag.ofText tag

def collectionTag (tag : Option String) (default : Tag) : Tag :=
  match tag with
  | none => default
  | some tag => if tag = anyTag then default else Tag.ofText tag

/-! Collections, given how to read a node -/

/-- A node that may be left out before certain tokens. -/
def optional (read : Read) (ends : Token → Bool) : Read := fun s =>
  if s.next ends then some (nothing, s) else read s

def isEntryOrEnd (t : Token) : Bool := t == .blockEntry || t == .blockEnd

def isKeyOrEnd (t : Token) : Bool := t == .key || t == .value || t == .blockEnd

def blockItems (read : Read) : Nat → State → Option (List Node × State)
  | 0, _ => none
  | fuel + 1, s =>
    match s.tokens with
    | .blockEntry :: _ => do
      let (item, s) ← optional read isEntryOrEnd s.drop
      let (items, s) ← blockItems read fuel s
      return (item :: items, s)
    | .blockEnd :: _ => some ([], s.drop)
    | _ => none

/-- The items of a sequence that stands under a key without further indentation. -/
def bareItems (read : Read) : Nat → State → Option (List Node × State)
  | 0, _ => none
  | fuel + 1, s =>
    match s.tokens with
    | .blockEntry :: _ => do
      let (item, s) ← optional read (fun t => t == .blockEntry || isKeyOrEnd t) s.drop
      let (items, s) ← bareItems read fuel s
      return (item :: items, s)
    | _ => some ([], s)

/-- The value of a key, if its mark comes next. -/
def valueOf (read : Read) (ends : Token → Bool) : Read := fun s =>
  if s.next (· == .value) then optional read ends s.drop else some (nothing, s)

def blockEntries (read : Read) : Nat → State → Option (List (Node × Node) × State)
  | 0, _ => none
  | fuel + 1, s =>
    match s.tokens with
    | .key :: _ => do
      let (key, s) ← optional read isKeyOrEnd s.drop
      let (value, s) ← valueOf read isKeyOrEnd s
      let (entries, s) ← blockEntries read fuel s
      return ((key, value) :: entries, s)
    | .blockEnd :: _ => some ([], s.drop)
    | _ => none

def flowEntry (read : Read) (close : Token) (s : State) : Option ((Node × Node) × State) := do
  let (key, s) ← optional read (fun t => t == .value || t == .flowEntry || t == close) s
  let (value, s) ← valueOf read (fun t => t == .flowEntry || t == close) s
  return ((key, value), s)

/-- The members of a collection in brackets, with commas between them; one may follow the last. -/
def members {α : Type} (read : State → Option (α × State)) (close : Token) :
    Nat → State → Option (List α × State)
  | 0, _ => none
  | fuel + 1, s =>
    if s.next (· == close) then some ([], s.drop)
    else do
      let (member, s) ← read s
      if s.next fun t => t == .flowEntry || t == close then
        let (rest, s) ← members read close fuel (s.skip .flowEntry)
        return (member :: rest, s)
      else none

/-- An item in brackets: a node, or one key with its value. -/
def flowItem (read : Read) : Read := fun s =>
  if s.next (· == .key) then
    (flowEntry read .flowSequenceEnd s.drop).map fun (entry, s) => (.mapping .mapping [entry], s)
  else read s

/-- An entry in braces: a node alone is a key without a value. -/
def flowMember (read : Read) (s : State) : Option ((Node × Node) × State) :=
  if s.next (· == .key) then flowEntry read .flowMappingEnd s.drop
  else (read s).map fun (key, s) => ((key, nothing), s)

/-! Nodes -/

/-- What a node may be where it stands: a block, and a sequence without indentation. -/
structure Place where
  block : Bool
  bare : Bool
  deriving DecidableEq, Repr

def inFlow : Place := ⟨false, false⟩

def inBlock : Place := ⟨true, false⟩

def underKey : Place := ⟨true, true⟩

/-- What follows the properties of a node. -/
def content (read : Place → Read) (place : Place) (tag : Option String) (given : Bool) : Read :=
  fun s =>
  let count := s.tokens.length + 1
  let sequence : List Node × State → Node × State := fun (items, s) =>
    (.sequence (collectionTag tag .sequence) items, s)
  let mapping : List (Node × Node) × State → Node × State := fun (entries, s) =>
    (.mapping (collectionTag tag .mapping) entries, s)
  let left : Option (Node × State) :=
    if given then some (.scalar (scalarTag tag true "") "", s) else none
  match s.tokens with
  | .scalar text plain :: _ => some (.scalar (scalarTag tag plain text) text, s.drop)
  | .flowSequence :: _ =>
    (members (flowItem (read inFlow)) .flowSequenceEnd count s.drop).map sequence
  | .flowMapping :: _ =>
    (members (flowMember (read inFlow)) .flowMappingEnd count s.drop).map mapping
  | .blockEntry :: _ =>
    if place.bare then (bareItems (read inBlock) count s).map sequence else left
  | .blockSequence :: _ =>
    if place.block then (blockItems (read inBlock) count s.drop).map sequence else left
  | .blockMapping :: _ =>
    if place.block then (blockEntries (read underKey) count s.drop).map mapping else left
  | _ => left

/-- Reads one node, with nodes within it to the depth of the fuel. -/
def read : Nat → Place → Read
  | 0, _, _ => none
  | fuel + 1, place, s =>
    match s.tokens with
    | .alias name :: _ => (s.nodeOf name).map fun node => (node, s.drop)
    | _ => do
      let (name, tag, s) ← properties s
      let s ← s.reserve name
      let (node, s) ← content (read fuel) place tag (name.isSome || tag.isSome) s
      return (node, s.keep node name)

/-! Documents -/

def defaultHandles : Keyed String String := [("!", anyTag), ("!!", coreTags)]

/-- Takes the directives in front of a document in: one version at most, and each handle once. -/
def directives (versioned : Bool) (handles : Keyed String String) :
    List Token → Option (Keyed String String × List Token)
  | .directive (.version major) :: rest =>
    if versioned || major != 1 then none else directives true handles rest
  | .directive (.handle name expansion) :: rest =>
    if Keyed.has handles name then none
    else directives versioned (Keyed.put handles name expansion) rest
  | .directive .other :: rest => directives versioned handles rest
  | rest => some (handles, rest)

def endsDocument : Token → Bool
  | .directive _ => true
  | .documentStart => true
  | .documentEnd => true
  | _ => false

/-- The node of a document whose start has been passed. -/
def document (handles : Keyed String String) (mayBeEmpty : Bool) (tokens : List Token) :
    Option Node := do
  let s : State := { tokens := tokens, handles := Keyed.putAll defaultHandles handles }
  let empty := mayBeEmpty && tokens.head?.all endsDocument
  let (node, s) ← if empty then some (nothing, s) else read (tokens.length + 1) inBlock s
  if s.tokens.all (· == .documentEnd) then some node else none

/-- The node of the only document in a text. -/
def ofTokens? : List Token → Option Node
  | [] => some nothing
  | tokens@(.directive _ :: _) | tokens@(.documentStart :: _) => do
    let (handles, rest) ← directives false [] tokens
    if rest.head? == some .documentStart then document handles true rest.tail else none
  | tokens => document [] false tokens

end Node

end Rehearsal.Yaml
