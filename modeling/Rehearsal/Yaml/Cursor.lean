/-!
A place in a YAML text: what is left of it, and the line and the column.

Several characters end a line. A mark of three dashes or dots at the start of a line separates
documents wherever it stands.
-/

namespace Rehearsal.Yaml

def lineSeparator : Char := '\u2028'

def paragraphSeparator : Char := '\u2029'

def isBreak (c : Char) : Bool :=
  c == '\n' || c == '\r' || c == '\u0085' || c == lineSeparator || c == paragraphSeparator

def isSpaceOrTab (c : Char) : Bool := c == ' ' || c == '\t'

/-- Whether a line ends here; the end of the text ends its last line. -/
def endsLine : Option Char → Bool
  | none => true
  | some c => isBreak c

def endsLineOrSpace : Option Char → Bool
  | none => true
  | some c => c == ' ' || isBreak c

def endsWord : Option Char → Bool
  | none => true
  | some c => isSpaceOrTab c || isBreak c

def isNameChar (c : Char) : Bool := c.isAlphanum || c == '-' || c == '_'

def byteOrderMark : Char := '\uFEFF'

structure Cursor where
  rest : List Char
  index : Nat := 0
  line : Nat := 0
  column : Nat := 0
  deriving DecidableEq, Repr, Inhabited

namespace Cursor

def here (c : Cursor) : Option Char := c.rest.head?

def peek (c : Cursor) (k : Nat) : Option Char := c.rest[k]?

def step (c : Cursor) : Cursor :=
  match c.rest with
  | [] => c
  | ch :: rest =>
    if isBreak ch && !(ch == '\r' && rest.head? == some '\n') then
      ⟨rest, c.index + 1, c.line + 1, 0⟩
    else if ch = byteOrderMark then ⟨rest, c.index + 1, c.line, c.column⟩
    else ⟨rest, c.index + 1, c.line, c.column + 1⟩

def advance : Nat → Cursor → Cursor
  | 0, c => c
  | n + 1, c => advance n c.step

def take (c : Cursor) (kind : Char → Bool) : List Char × Cursor :=
  let cs := c.rest.takeWhile kind
  (cs, advance cs.length c)

def skip (c : Cursor) (kind : Char → Bool) : Cursor := (c.take kind).2

def skipSpaces (c : Cursor) : Cursor := c.skip (· == ' ')

/-- Takes the end of a line; every kind but the separators counts as a line feed. -/
def lineBreak? (c : Cursor) : Option (Char × Cursor) :=
  match c.rest with
  | '\r' :: '\n' :: _ => some ('\n', advance 2 c)
  | ch :: _ =>
    if ch = lineSeparator ∨ ch = paragraphSeparator then some (ch, c.step)
    else if isBreak ch then some ('\n', c.step)
    else none
  | [] => none

/-- Leaves the rest of a line that may hold a comment only. -/
def endLine? (c : Cursor) : Option Cursor :=
  let c := c.skipSpaces
  let c := if c.here = some '#' then c.skip fun ch => !isBreak ch else c
  if endsLine c.here then
    match c.lineBreak? with
    | some (_, c) => some c
    | none => some c
  else none

/-- Whether the next three characters are a mark between documents. -/
def atMark (c : Cursor) (mark : Char) : Bool :=
  c.rest.take 3 == List.replicate 3 mark && endsWord (c.peek 3)

def atDocumentMark (c : Cursor) : Bool := c.atMark '-' || c.atMark '.'

end Cursor

end Rehearsal.Yaml
