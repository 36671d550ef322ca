import Rehearsal.Json.Reader
import Rehearsal.Yaml.Cursor

/-!
Quoted scalars.

In single quotes a doubled quote stands for one and nothing else is special; in double quotes a
backslash begins an escape. A line break inside counts as a blank, and each empty line after it as a
line break.
-/

namespace Rehearsal.Yaml

/-- Characters read, with the place after them; `none` if the text is malformed. -/
abbrev Piece := Option (List Char × Cursor)

def Piece.after (front : List Char) (piece : Piece) : Piece :=
  piece.map fun (cs, c) => (front ++ cs, c)

namespace Quoted

def singleQuote : Char := '\x27'

def doubleQuote : Char := '"'

/-- The character that an escape of one letter stands for. -/
def replacement? : Char → Option Char
  | '0' => some '\x00'
  | 'a' => some '\x07'
  | 'b' => some '\x08'
  | 't' => some '\t'
  | '\t' => some '\t'
  | 'n' => some '\n'
  | 'v' => some '\x0b'
  | 'f' => some '\x0c'
  | 'r' => some '\r'
  | 'e' => some '\x1b'
  | ' ' => some ' '
  | '"' => some '"'
  | '\\' => some '\\'
  | '/' => some '/'
  | 'N' => some '\u0085'
  | '_' => some '\u00a0'
  | 'L' => some lineSeparator
  | 'P' => some paragraphSeparator
  | _ => none

/-- How many digits the code of an escape has. -/
def codeLength? : Char → Option Nat
  | 'x' => some 2
  | 'u' => some 4
  | 'U' => some 8
  | _ => none

def codeOf (digits : List Char) : Nat :=
  digits.foldl (fun n c => n * 16 + (Json.hexValue? c).getD 0) 0

/-- The line breaks that come next; a mark between documents must not stand among them. -/
def breaks : Nat → Cursor → Piece
  | 0, c => some ([], c)
  | fuel + 1, c =>
    if c.atDocumentMark then none
    else
      let c := c.skip isSpaceOrTab
      match c.lineBreak? with
      | some (mark, c) => Piece.after [mark] (breaks fuel c)
      | none => some ([], c)

def allBreaks (c : Cursor) : Piece := breaks (c.rest.length + 1) c

def escape (c : Cursor) : Piece :=
  match c.here with
  | none => none
  | some ch =>
    match replacement? ch, codeLength? ch with
    | some r, _ => some ([r], c.step)
    | none, some n =>
      let digits := c.step.rest.take n
      if digits.length = n ∧ digits.all fun d => (Json.hexValue? d).isSome then
        some ([Char.ofNat (codeOf digits)], Cursor.advance n c.step)
      else none
    | none, none =>
      match c.lineBreak? with
      | some (_, c) => allBreaks c
      | none => none

def isOrdinary (c : Char) : Bool :=
  !(c == singleQuote || c == doubleQuote || c == '\\' || isSpaceOrTab c || isBreak c)

/-- The characters up to a blank, a line break or the closing quote. -/
def word (double : Bool) : Nat → Cursor → Piece
  | 0, c => some ([], c)
  | fuel + 1, c =>
    let (cs, c) := c.take isOrdinary
    match c.here with
    | none => some (cs, c)
    | some ch =>
      if !double && ch == singleQuote && c.peek 1 == some singleQuote then
        Piece.after (cs ++ [singleQuote]) (word double fuel (Cursor.advance 2 c))
      else if (double && ch == singleQuote) || (!double && (ch == doubleQuote || ch == '\\')) then
        Piece.after (cs ++ [ch]) (word double fuel c.step)
      else if double && ch == '\\' then
        match escape c.step with
        | none => none
        | some (made, c) => Piece.after (cs ++ made) (word double fuel c)
      else some (cs, c)

/-- What a line break and the empty lines after it stand for. -/
def fold (mark : Char) (more : List Char) : List Char :=
  if mark != '\n' then mark :: more
  else if more.isEmpty then [' ']
  else more

/-- The blanks or the line breaks between two words. -/
def gap (c : Cursor) : Piece :=
  let (blanks, c) := c.take isSpaceOrTab
  match c.here with
  | none => none
  | some _ =>
    match c.lineBreak? with
    | none => some (blanks, c)
    | some (mark, c) => (allBreaks c).map fun (more, c) => (fold mark more, c)

/-- Gaps and words up to the closing quote. -/
def upTo (double : Bool) : Nat → Cursor → Piece
  | 0, _ => none
  | fuel + 1, c =>
    if c.here = some (if double then doubleQuote else singleQuote) then some ([], c.step)
    else
      match gap c with
      | none => none
      | some (between, c) =>
        match word double (c.rest.length + 1) c with
        | none => none
        | some (cs, c) => Piece.after (between ++ cs) (upTo double fuel c)

/-- A quoted scalar whose opening quote comes next. -/
def scan (double : Bool) (c : Cursor) : Piece :=
  let c := c.step
  match word double (c.rest.length + 1) c with
  | none => none
  | some (cs, c) => Piece.after cs (upTo double (c.rest.length + 1) c)

end Quoted

end Rehearsal.Yaml
