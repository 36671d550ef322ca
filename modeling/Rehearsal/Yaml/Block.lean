import Rehearsal.Text.Basic
import Rehearsal.Yaml.Quoted

/-!
Block scalars: indented lines, kept as they are or folded into one.

The header may say how far the lines are indented and what becomes of the line breaks at the end: one
is kept, or all, or none.
-/

namespace Rehearsal.Yaml.Block

inductive Chomping where
  | clip
  | keep
  | strip
  deriving DecidableEq, Repr, Inhabited

def chomping? : Option Char → Option Chomping
  | some '+' => some .keep
  | some '-' => some .strip
  | _ => none

def increment? (c : Cursor) : Option (Option Nat × Cursor) :=
  match c.here with
  | some ch =>
    if ch = '0' then none
    else if ch.isDigit then some (some (ch.toNat - '0'.toNat), c.step)
    else some (none, c)
  | none => some (none, c)

/-- What the header says, in either order, and the place where the lines begin. -/
def header (c : Cursor) : Option (Chomping × Option Nat × Cursor) := do
  let (chomping, increment, c) ←
    match chomping? c.here with
    | some chomping => do
      let (increment, c) ← increment? c.step
      pure (chomping, increment, c)
    | none => do
      let (increment, c) ← increment? c
      match increment, chomping? c.here with
      | some n, some chomping => pure (chomping, some n, c.step)
      | increment, _ => pure (Chomping.clip, increment, c)
  if endsLineOrSpace c.here then return (chomping, increment, ← c.endLine?) else none

/-- Empty lines, and the largest column that blanks on them reach. -/
def leading : Nat → Cursor → List Char × Nat × Cursor
  | 0, c => ([], 0, c)
  | fuel + 1, c =>
    let c := c.skipSpaces
    match c.lineBreak? with
    | none => ([], c.column, c)
    | some (mark, after) =>
      let (marks, column, last) := leading fuel after
      (mark :: marks, max c.column column, last)

/-- Skips the blanks up to a column. -/
def indentTo (indent : Nat) (c : Cursor) : Cursor :=
  Cursor.advance (min (indent - c.column) (c.take (· == ' ')).1.length) c

/-- Line breaks, with blanks up to a column before the next line. -/
def breaks (indent : Nat) : Nat → Cursor → List Char × Cursor
  | 0, c => ([], c)
  | fuel + 1, c =>
    let c := indentTo indent c
    match c.lineBreak? with
    | none => ([], c)
    | some (mark, c) =>
      let (marks, c) := breaks indent fuel c
      (mark :: marks, c)

def startsBlank (c : Cursor) : Bool := c.here.any isSpaceOrTab

/-- What stands between two lines. -/
def between (folded blank nextBlank : Bool) (mark more : List Char) : List Char :=
  if folded && mark == ['\n'] && !blank && !nextBlank then
    (if more.isEmpty then [' '] else []) ++ more
  else mark ++ more

/-- The lines at an indentation, with the line break after the last one and the empty lines after
that. -/
def lines (folded : Bool) (indent : Nat) : Nat → Cursor → List Char × List Char × List Char × Cursor
  | 0, c => ([], [], [], c)
  | fuel + 1, c =>
    let blank := startsBlank c
    let (cs, c) := c.take fun ch => !isBreak ch
    let (mark, c) : List Char × Cursor :=
      match c.lineBreak? with
      | some (mark, c) => ([mark], c)
      | none => ([], c)
    let (more, c) := breaks indent (c.rest.length + 1) c
    if c.column = indent ∧ c.here.isSome then
      let gap := between folded blank (startsBlank c) mark more
      let (text, last, tail, c) := lines folded indent fuel c
      (cs ++ gap ++ text, last, tail, c)
    else (cs, mark, more, c)

def chomp : Chomping → List Char → List Char → List Char
  | .strip, _, _ => []
  | .clip, mark, _ => mark
  | .keep, mark, more => mark ++ more

/-- A block scalar whose indicator comes next, in a block of some indentation. -/
def scan (folded : Bool) (indent : Int) (c : Cursor) : Piece := do
  let (chomping, increment, c) ← header c.step
  let least := (max (indent + 1) 1).toNat
  let (before, indent, c) : List Char × Nat × Cursor :=
    match increment with
    | some n =>
      let indent := least + n - 1
      let (marks, c) := breaks indent (c.rest.length + 1) c
      (marks, indent, c)
    | none =>
      let (marks, column, c) := leading (c.rest.length + 1) c
      (marks, max least column, c)
  if c.column = indent ∧ c.here.isSome then
    let (text, mark, more, c) := lines folded indent (c.rest.length + 1) c
    return (before ++ text ++ chomp chomping mark more, c)
  else return (chomp chomping [] before, c)

end Rehearsal.Yaml.Block
