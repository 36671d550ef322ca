import Rehearsal.Fault
import Rehearsal.Text.Basic
import Rehearsal.Value.Same

/-!
Paths into documents: `$` and then fields `.name` and indices `[n]`.

`Path.compile` reads a path text and `Path.text` writes it. A name starts with a letter or an
underscore and goes on with letters, digits, underscores and hyphens; an index has no leading zero.
-/

namespace Rehearsal

inductive Segment where
  | field (name : String)
  | index (n : Nat)
  deriving DecidableEq, Repr, Inhabited

structure Path where
  segments : List Segment
  deriving DecidableEq, Repr, Inhabited

def Segment.chars : Segment → List Char
  | .field name => '.' :: name.toList
  | .index n => '[' :: Nat.toDigits 10 n ++ [']']

def Segment.text (s : Segment) : String := String.ofList s.chars

namespace Path

def charsOf (segments : List Segment) : List Char := '$' :: segments.flatMap Segment.chars

def text (p : Path) : String := String.ofList (charsOf p.segments)

def upTo (p : Path) (depth : Nat) : String := String.ofList (charsOf (p.segments.take depth))

def isNameStart (c : Char) : Bool :=
  ('a' ≤ c && c ≤ 'z') || ('A' ≤ c && c ≤ 'Z') || c == '_'

def isNamePart (c : Char) : Bool := isNameStart c || ('0' ≤ c && c ≤ '9') || c == '-'

def isAsciiDigit (c : Char) : Bool := '0' ≤ c && c ≤ '9'

/-- Whether digits write an index: not empty, and no zero in front of others. -/
def isIndexText : List Char → Bool
  | [] => false
  | ['0'] => true
  | c :: _ => c != '0'

/-- The segment at the front of a text and the characters after it. -/
def takeSegment : List Char → Option (Segment × List Char)
  | '.' :: c :: rest =>
    if isNameStart c then
      some (.field (String.ofList (c :: rest.takeWhile isNamePart)), rest.dropWhile isNamePart)
    else none
  | '[' :: rest =>
    let digits := rest.takeWhile isAsciiDigit
    match rest.dropWhile isAsciiDigit with
    | ']' :: rest =>
      if isIndexText digits then some (.index (Text.digitsValue digits), rest) else none
    | _ => none
  | _ => none

/-- Reads segments until the text ends; a failure is the text that no segment starts. The fuel is
a bound on the number of segments. -/
def takeSegments : Nat → List Char → Except (List Char) (List Segment)
  | _, [] => .ok []
  | 0, cs => .error cs
  | fuel + 1, cs =>
    match takeSegment cs with
    | none => .error cs
    | some (segment, rest) => (takeSegments fuel rest).map (segment :: ·)

def compile (text : String) : Except Fault Path :=
  match text.toList with
  | '$' :: cs =>
    match takeSegments cs.length cs with
    | .error rest =>
      .error (.invalidPath
        ("Invalid path '" ++ text ++ "': unexpected " ++ Text.quoted (String.ofList rest)
          ++ " at position " ++ toString (text.length - rest.length)) (some text))
    | .ok [] =>
      .error (.invalidPath ("Path '" ++ text ++ "' needs at least one segment after '$'")
        (some text))
    | .ok segments => .ok ⟨segments⟩
  | _ => .error (.invalidPath ("Path '" ++ text ++ "' must start with '$'") (some text))

/-- Compiles a value that should be a path text. What is no key cannot even be looked up among the
paths that have been compiled. -/
def ofValue (value : Value) : Except Fault Path :=
  match value.keyFlaw?, value.text? with
  | some type, _ => .error (Fault.noKey type)
  | none, some text => compile text
  | none, none => .error (.invalidPath ("Path must be a string, got " ++ value.typeName) none)

end Path

end Rehearsal
