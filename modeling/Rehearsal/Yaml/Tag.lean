import Rehearsal.Number.Numeral
import Rehearsal.Text.Basic
import Rehearsal.Yaml.Timestamp

/-!
What kind of node a tag stands for, and the tag that a plain scalar has by its looks.
-/

namespace Rehearsal.Yaml

inductive Tag where
  | null
  | bool
  | int
  | float
  | timestamp
  | binary
  | text
  | sequence
  | mapping
  | set
  | orderedMapping
  | pairs
  | merge
  | standIn
  | unknown
  deriving DecidableEq, Repr, Inhabited

def coreTags : String := "tag:yaml.org,2002:"

namespace Tag

/-- The text of a tag after `coreTags`. -/
def name? : Tag → Option String
  | .null => some "null"
  | .bool => some "bool"
  | .int => some "int"
  | .float => some "float"
  | .timestamp => some "timestamp"
  | .binary => some "binary"
  | .text => some "str"
  | .sequence => some "seq"
  | .mapping => some "map"
  | .set => some "set"
  | .orderedMapping => some "omap"
  | .pairs => some "pairs"
  | .merge => some "merge"
  | .standIn => some "value"
  | .unknown => none

def all : List Tag :=
  [.null, .bool, .int, .float, .timestamp, .binary, .text, .sequence, .mapping, .set,
    .orderedMapping, .pairs, .merge, .standIn]

def ofText (s : String) : Tag :=
  (all.find? fun tag => tag.name?.map (coreTags ++ ·) == some s).getD .unknown

/-! The looks of plain scalars -/

/-- A word and what it means as a truth value. -/
def boolWords : List (String × Bool) :=
  [("yes", true), ("no", false), ("true", true), ("false", false), ("on", true), ("off", false)]

/-- A word in the ways it may be written: small, capitalised, or in capitals. -/
def spellings (word : String) : List String := [word, word.capitalize, word.toUpper]

def nullWords : List String := ["", "~"] ++ spellings "null"

def isDigitOrBar (c : Char) : Bool := c.isDigit || c == '_'

/-- A row of digits and bars that begins with a digit. -/
def isRow : List Char → Bool
  | [] => false
  | c :: rest => c.isDigit && rest.all isDigitOrBar

/-- Minutes or seconds: a number below sixty. -/
def isSixtieth : List Char → Bool
  | [c] => c.isDigit
  | [c, d] => c.isDigit && c.toNat < '6'.toNat && d.isDigit
  | _ => false

/-- Numbers with colons between them. -/
def isSexagesimal (cs : List Char) : Bool :=
  match Text.parts ':' cs with
  | first :: rest@(_ :: _) => isRow first && rest.all isSixtieth
  | _ => false

/-- Nothing, or an exponent with a sign. -/
def isExponentOrEnd : List Char → Bool
  | [] => true
  | [_] => false
  | e :: sign :: digits =>
    (e == 'e' || e == 'E') && (sign == '-' || sign == '+') && !digits.isEmpty
      && digits.all Char.isDigit

/-- What comes before the first point and what comes after it, if there is a point. -/
def atPoint (cs : List Char) : Option (List Char × List Char) :=
  match cs.dropWhile (· != '.') with
  | [] => none
  | _ :: rest => some (cs.takeWhile (· != '.'), rest)

def isFloat (cs : List Char) : Bool :=
  let unsigned := (Numeral.takeSign cs).2
  let numeral :=
    match atPoint unsigned with
    | none => false
    | some (whole, fraction) =>
      let tail := isExponentOrEnd (fraction.dropWhile isDigitOrBar)
      (isRow whole && tail) || (isSexagesimal whole && fraction.all isDigitOrBar)
        || (unsigned.length == cs.length && whole.isEmpty && tail
          && fraction.head?.any Char.isDigit)
  numeral || [".inf", ".Inf", ".INF"].contains (String.ofList unsigned)
    || [".nan", ".NaN", ".NAN"].contains (String.ofList cs)

def isInt (cs : List Char) : Bool :=
  let inBase (base : Nat) (digits : List Char) : Bool :=
    !digits.isEmpty && digits.all fun c => c == '_' || (Text.digitIn? base c).isSome
  match (Numeral.takeSign cs).2 with
  | [] => false
  | ['0'] => true
  | '0' :: 'b' :: digits => inBase 2 digits
  | '0' :: 'x' :: digits => inBase 16 digits
  | '0' :: digits => inBase 8 digits
  | cs => isRow cs || isSexagesimal cs

def ofPlain (s : String) : Tag :=
  let cs := s.toList
  if boolWords.any fun word => (spellings word.1).contains s then .bool
  else if isFloat cs then .float
  else if isInt cs then .int
  else if s = "<<" then .merge
  else if nullWords.contains s then .null
  else if Timestamp.isPlain cs then .timestamp
  else if s = "=" then .standIn
  else .text

end Tag

end Rehearsal.Yaml
