import Rehearsal.Yaml.Quoted

/-!
Plain scalars: text without quotes, as far as it may go.

A colon before a blank, a comment, or in brackets a comma or bracket ends it, and so does a line that
is not indented further than the block it stands in.
-/

namespace Rehearsal.Yaml.Plain

def isFlowMark (c : Char) : Bool :=
  c == ',' || c == '[' || c == ']' || c == '\x7b' || c == '\x7d'

/-- Whether a colon before this character ends the text. -/
def endsKey (inFlow : Bool) (next : Option Char) : Bool :=
  endsWord next || (inFlow && next.any isFlowMark)

/-- How many characters come before the text ends or a blank follows. -/
def wordLength (inFlow : Bool) : List Char → Nat
  | [] => 0
  | ch :: rest =>
    if endsWord (some ch) || (ch == ':' && endsKey inFlow rest.head?)
        || (inFlow && (isFlowMark ch || ch == '?')) then 0
    else wordLength inFlow rest + 1

/-- The empty lines after a line break, and whether a mark between documents ends them. -/
def emptyLines : Nat → Cursor → List Char × Bool × Cursor
  | 0, c => ([], false, c)
  | fuel + 1, c =>
    let c := c.skipSpaces
    match c.lineBreak? with
    | none => ([], false, c)
    | some (mark, c) =>
      if c.atDocumentMark then ([mark], true, c)
      else
        let (marks, ended, c) := emptyLines fuel c
        (mark :: marks, ended, c)

/-- What a gap in the text stands for, whether a line ended in it, and the place after it. -/
def gap (c : Cursor) : List Char × Bool × Cursor :=
  let (blanks, c) := c.take (· == ' ')
  match c.lineBreak? with
  | none => (blanks, false, c)
  | some (mark, c) =>
    if c.atDocumentMark then ([], true, c)
    else
      match emptyLines (c.rest.length + 1) c with
      | (_, true, c) => ([], true, c)
      | (more, false, c) => (Quoted.fold mark more, true, c)

/-- A scalar read: its text, the place after it, and whether the last gap ended a line. -/
structure Scan where
  text : List Char
  cursor : Cursor
  brokeLine : Bool
  deriving Repr, Inhabited

/-- Words and the gaps between them; `before` is the gap before the next word. -/
def words (inFlow : Bool) (indent : Int) : Nat → List Char → Bool → Cursor → Scan
  | 0, _, broke, c => ⟨[], c, broke⟩
  | fuel + 1, before, broke, c =>
    let length := if c.here = some '#' then 0 else wordLength inFlow c.rest
    if length = 0 then ⟨[], c, broke⟩
    else
      let cs := c.rest.take length
      let (between, brokeNow, after) := gap (Cursor.advance length c)
      let stops :=
        between.isEmpty || after.here == some '#' || (!inFlow && (after.column : Int) < indent)
      if stops then ⟨before ++ cs, after, brokeNow⟩
      else
        let more := words inFlow indent fuel between brokeNow after
        { more with text := before ++ cs ++ more.text }

def scan (inFlow : Bool) (indent : Int) (c : Cursor) : Scan :=
  words inFlow indent (c.rest.length + 1) [] false c

end Rehearsal.Yaml.Plain
