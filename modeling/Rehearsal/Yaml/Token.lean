import Rehearsal.Keyed
import Rehearsal.Text.Utf8
import Rehearsal.Yaml.Block
import Rehearsal.Yaml.Plain

/-!
The tokens of a YAML text.

Indentation shows in the tokens: a block of sequence entries or of keys begins where text stands
further to the right than the block around it, and ends where text stands further to the left. A key
is known as such only by the colon after it, so the places where keys may stand are remembered until
the line ends, and the token for a key is put there when its colon comes.
-/

namespace Rehearsal.Yaml

/-- A tag as it is written: a handle that a directive may define, and what follows it. -/
structure TagText where
  handle : Option String
  suffix : String
  deriving DecidableEq, Repr, Inhabited

inductive Directive where
  | version (major : Nat)
  | handle (name expansion : String)
  | other
  deriving DecidableEq, Repr, Inhabited

inductive Token where
  | directive (d : Directive)
  | documentStart
  | documentEnd
  | blockSequence
  | blockMapping
  | blockEnd
  | flowSequence
  | flowSequenceEnd
  | flowMapping
  | flowMappingEnd
  | blockEntry
  | flowEntry
  | key
  | value
  | alias (name : String)
  | anchor (name : String)
  | tag (text : TagText)
  | scalar (text : String) (plain : Bool)
  deriving DecidableEq, Repr, Inhabited

namespace Scan

/-- A place where a key may stand. -/
structure KeyPlace where
  token : Nat
  required : Bool
  index : Nat
  line : Nat
  column : Nat
  deriving DecidableEq, Repr, Inhabited

/-- The tokens so far, the place in the text, how deep in brackets it is, the indentation of the
blocks around it, whether a key may stand here, and the places of possible keys by depth. -/
structure State where
  cursor : Cursor
  tokens : List Token := []
  depth : Nat := 0
  indent : Int := -1
  outer : List Int := []
  keyAllowed : Bool := true
  keys : Keyed Nat KeyPlace := []
  deriving Repr, Inhabited

namespace State

def push (s : State) (t : Token) : State := { s with tokens := s.tokens ++ [t] }

def moveTo (s : State) (c : Cursor) : State := { s with cursor := c }

def allowKey (s : State) (allowed : Bool) : State := { s with keyAllowed := allowed }

def inFlow (s : State) : Bool := s.depth != 0

def forgetKey (s : State) : Option State :=
  match Keyed.get? s.keys s.depth with
  | none => some s
  | some place => if place.required then none else some { s with keys := Keyed.erase s.keys s.depth }

/-- Remembers that the next token may be a key. -/
def noteKey (s : State) : Option State :=
  if s.keyAllowed then do
    let required := !s.inFlow && s.indent == (s.cursor.column : Int)
    let s ← s.forgetKey
    let place : KeyPlace :=
      ⟨s.tokens.length, required, s.cursor.index, s.cursor.line, s.cursor.column⟩
    return { s with keys := Keyed.put s.keys s.depth place }
  else some s

/-- Whether a possible key has been left too far behind. -/
def isStale (s : State) (place : KeyPlace) : Bool :=
  place.line != s.cursor.line || s.cursor.index - place.index > 1024

/-- Forgets the possible keys that have been left behind. -/
def forgetStale (s : State) : Option State :=
  let (stale, fresh) := s.keys.partition fun entry => s.isStale entry.2
  if stale.any fun entry => entry.2.required then none else some { s with keys := fresh }

def unwindFrom (column : Int) : List Int → State → State
  | [], s => s
  | next :: outer, s =>
    if column < s.indent then
      unwindFrom column outer { s.push .blockEnd with indent := next, outer := outer }
    else s

def unwind (s : State) (column : Int) : State :=
  if s.inFlow then s else unwindFrom column s.outer s

/-- Begins a block at a column if it stands further to the right than the block around it. -/
def indentTo (s : State) (column : Nat) : Bool × State :=
  if s.indent < (column : Int) then
    (true, { s with indent := column, outer := s.indent :: s.outer })
  else (false, s)

/-- Skips blanks, comments and line ends. -/
def skipToToken : Nat → State → State
  | 0, s => s
  | fuel + 1, s =>
    let c := s.cursor.skipSpaces
    let c := if c.here = some '#' then c.skip fun ch => !isBreak ch else c
    match c.lineBreak? with
    | none => s.moveTo c
    | some (_, c) =>
      let s := s.moveTo c
      skipToToken fuel (if s.inFlow then s else s.allowKey true)

def take (s : State) (t : Token) : State := (s.push t).moveTo s.cursor.step

end State

open State

/-! Names, tags and directives -/

def name (c : Cursor) : Option (String × Cursor) :=
  let (cs, c) := c.step.take isNameChar
  let ended :=
    endsWord c.here || c.here.any ['?', ':', ',', ']', '\x7d', '%', '@', '\x60'].contains
  if cs.isEmpty || !ended then none else some (String.ofList cs, c)

def isUriChar (c : Char) : Bool :=
  c.isAlphanum || "-;/?:@&=+$,_.!~*\x27()[]".toList.contains c

/-- The bytes of a run of percent escapes. -/
def uriBytes : List Char → Option (List UInt8 × List Char)
  | '%' :: a :: b :: rest =>
    match Json.hexValue? a, Json.hexValue? b with
    | some high, some low =>
      (uriBytes rest).map fun (bytes, left) => ((high * 16 + low).toUInt8 :: bytes, left)
    | _, _ => none
  | '%' :: _ => none
  | cs => some ([], cs)

/-- The characters of a URI, with escapes replaced by what they stand for. -/
def uri : Nat → Cursor → Piece
  | 0, c => some ([], c)
  | fuel + 1, c =>
    let (cs, c) := c.take isUriChar
    if c.here = some '%' then
      match uriBytes c.rest with
      | none => none
      | some (bytes, left) =>
        match Utf8.decode bytes with
        | .error _ => none
        | .ok s =>
          let after := Cursor.advance (c.rest.length - left.length) c
          Piece.after (cs ++ s.toList) (uri fuel after)
    else some (cs, c)

def wholeUri (c : Cursor) : Option (String × Cursor) :=
  match uri (c.rest.length + 1) c with
  | some (cs, after) => if cs.isEmpty then none else some (String.ofList cs, after)
  | none => none

/-- A handle: an exclamation mark, or a name between two of them. -/
def handle (c : Cursor) : Option (String × Cursor) :=
  if c.here != some '!' then none
  else
    let c := c.step
    if c.here = some ' ' then some ("!", c)
    else
      let (cs, c) := c.take isNameChar
      if c.here = some '!' then some (String.ofList ('!' :: cs ++ ['!']), c.step) else none

def tag (c : Cursor) : Option (TagText × Cursor) := do
  let (text, c) ←
    if c.peek 1 = some '<' then do
      let (suffix, c) ← wholeUri (Cursor.advance 2 c)
      if c.here = some '>' then pure (TagText.mk none suffix, c.step) else none
    else if endsWord (c.peek 1) then pure (TagText.mk none "!", c.step)
    else
      let word := c.rest.drop 1 |>.takeWhile fun ch => !endsLineOrSpace (some ch)
      let (mark, c) ← if word.contains '!' then handle c else pure ("!", c.step)
      let (suffix, c) ← wholeUri c
      pure (TagText.mk (some mark) suffix, c)
  if endsLineOrSpace c.here then return (text, c) else none

def number (c : Cursor) : Option (Nat × Cursor) :=
  let (cs, c) := c.take Char.isDigit
  if cs.isEmpty then none else some (Text.digitsValue cs, c)

/-- A version: two numbers with a point between. -/
def version (c : Cursor) : Option (Directive × Cursor) := do
  let (major, c) ← number c.skipSpaces
  if c.here != some '.' then none
  let (_, c) ← number c.step
  if endsLineOrSpace c.here then return (.version major, c) else none

def handleDefinition (c : Cursor) : Option (Directive × Cursor) := do
  let (name, c) ← handle c.skipSpaces
  if c.here != some ' ' then none
  let (expansion, c) ← wholeUri c.skipSpaces
  if endsLineOrSpace c.here then return (.handle name expansion, c) else none

def directive (c : Cursor) : Option (Directive × Cursor) := do
  let (cs, c) := c.step.take isNameChar
  if cs.isEmpty || !endsLineOrSpace c.here then none
  let (made, c) ←
    match String.ofList cs with
    | "YAML" => version c
    | "TAG" => handleDefinition c
    | _ => pure (.other, c.skip fun ch => !isBreak ch)
  return (made, ← c.endLine?)

/-! One token -/

def atMargin (s : State) : Option State :=
  ((s.unwind (-1)).forgetKey).map fun s => s.allowKey false

def documentMark (s : State) (t : Token) : Option State := do
  let s ← atMargin s
  return (s.push t).moveTo (Cursor.advance 3 s.cursor)

def openFlow (s : State) (t : Token) : Option State := do
  let s ← s.noteKey
  return { s.take t with depth := s.depth + 1, keyAllowed := true }

def closeFlow (s : State) (t : Token) : Option State :=
  if s.depth = 0 then none
  else do
    let s ← s.forgetKey
    return { s.take t with depth := s.depth - 1, keyAllowed := false }

def flowEntry (s : State) : Option State := do
  let s ← (s.allowKey true).forgetKey
  return s.take .flowEntry

/-- Begins a block here if need be; only where a key may stand. -/
def openBlock (s : State) (t : Token) : Option State :=
  if s.inFlow then some s
  else if !s.keyAllowed then none
  else
    match s.indentTo s.cursor.column with
    | (true, s) => some (s.push t)
    | (false, s) => some s

def blockEntry (s : State) : Option State := do
  let s ← openBlock s .blockSequence
  let s ← (s.allowKey true).forgetKey
  return s.take .blockEntry

def explicitKey (s : State) : Option State := do
  let s ← openBlock s .blockMapping
  let s ← (s.allowKey (!s.inFlow)).forgetKey
  return s.take .key

/-- Puts the token of a key, and of the block it begins, where the key stands. -/
def insertKey (s : State) (place : KeyPlace) : State :=
  let s : State :=
    { s with
      keys := Keyed.erase s.keys s.depth
      tokens := s.tokens.insertIdx place.token .key }
  let s :=
    if s.inFlow then s
    else
      match s.indentTo place.column with
      | (true, s) => { s with tokens := s.tokens.insertIdx place.token .blockMapping }
      | (false, s) => s
  s.allowKey false

def valueMark (s : State) : Option State :=
  match Keyed.get? s.keys s.depth with
  | some place => some ((insertKey s place).take .value)
  | none => do
    let s ← openBlock s .blockMapping
    let s ← (s.allowKey (!s.inFlow)).forgetKey
    return s.take .value

/-- A token that may be a key and after which none may stand. -/
def content (s : State) (read : Cursor → Option (Token × Cursor)) : Option State := do
  let s ← s.noteKey
  let (t, c) ← read s.cursor
  return ((s.push t).moveTo c).allowKey false

def blockScalar (s : State) (folded : Bool) : Option State := do
  let s ← (s.allowKey true).forgetKey
  let (cs, c) ← Block.scan folded s.indent s.cursor
  return (s.push (.scalar (String.ofList cs) false)).moveTo c

def plainScalar (s : State) : Option State := do
  let s ← s.noteKey
  let made := Plain.scan s.inFlow (s.indent + 1) s.cursor
  return ((s.push (.scalar (String.ofList made.text) true)).moveTo made.cursor).allowKey
    made.brokeLine

def quoted (double : Bool) (c : Cursor) : Option (Token × Cursor) :=
  (Quoted.scan double c).map fun (cs, c) => (.scalar (String.ofList cs) false, c)

/-- Whether a plain scalar may begin with a character, given the one after it. -/
def beginsPlain (inFlow : Bool) (ch : Char) (next : Option Char) : Bool :=
  !(endsWord (some ch) || "-?:,[]\x7b\x7d#&*!|>\x27\"%@\x60".toList.contains ch)
    || (!endsWord next && (ch == '-' || (!inFlow && (ch == '?' || ch == ':'))))

def tokenAt (s : State) (ch : Char) : Option State :=
  let c := s.cursor
  let next := c.peek 1
  let spaced := s.inFlow || endsWord next
  if ch = '%' ∧ c.column = 0 then do
    let s ← atMargin s
    let (d, c) ← directive s.cursor
    return (s.push (.directive d)).moveTo c
  else if ch = '-' ∧ c.column = 0 ∧ c.atMark '-' then documentMark s .documentStart
  else if ch = '.' ∧ c.column = 0 ∧ c.atMark '.' then documentMark s .documentEnd
  else if ch = '[' then openFlow s .flowSequence
  else if ch = '\x7b' then openFlow s .flowMapping
  else if ch = ']' then closeFlow s .flowSequenceEnd
  else if ch = '\x7d' then closeFlow s .flowMappingEnd
  else if ch = ',' then flowEntry s
  else if ch = '-' ∧ endsWord next then blockEntry s
  else if ch = '?' ∧ spaced then explicitKey s
  else if ch = ':' ∧ spaced then valueMark s
  else if ch = '*' then content s fun c => (name c).map fun (s, c) => (.alias s, c)
  else if ch = '&' then content s fun c => (name c).map fun (s, c) => (.anchor s, c)
  else if ch = '!' then content s fun c => (tag c).map fun (t, c) => (.tag t, c)
  else if (ch = '|' ∨ ch = '>') ∧ !s.inFlow then blockScalar s (ch == '>')
  else if ch = Quoted.singleQuote then content s (quoted false)
  else if ch = Quoted.doubleQuote then content s (quoted true)
  else if beginsPlain s.inFlow ch next then plainScalar s
  else none

def run : Nat → State → Option (List Token)
  | 0, _ => none
  | fuel + 1, s => do
    let s := skipToToken (s.cursor.rest.length + 1) s
    let s ← s.forgetStale
    let s := s.unwind s.cursor.column
    match s.cursor.here with
    | none => return (← (s.unwind (-1)).forgetKey).tokens
    | some ch => run fuel (← tokenAt s ch)

def isPrintable (c : Char) : Bool :=
  let n := c.toNat
  n == 9 || n == 10 || n == 13 || (0x20 ≤ n && n ≤ 0x7E) || n == 0x85 || (0xA0 ≤ n && n ≤ 0xFFFD)
    || 0x10000 ≤ n

end Scan

/-- The tokens of a text; `none` if it is malformed. -/
def Token.ofText? (text : String) : Option (List Token) :=
  let cs := text.toList
  if cs.all Scan.isPrintable then
    let start : Cursor := ⟨cs, 0, 0, 0⟩
    Scan.run (cs.length + 1)
      { cursor := if start.here = some byteOrderMark then start.step else start }
  else none

end Rehearsal.Yaml
