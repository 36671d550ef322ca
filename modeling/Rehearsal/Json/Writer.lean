import Rehearsal.Fault
import Rehearsal.Json.Reader
import Rehearsal.Value.Order

/-!
Writing values as JSON text.

The style says how: sorted names, indentation, separators, whether other scripts are escaped, and
whether NaN and the infinities may appear. A decimal is written as its nearest double and a time by
its date and clock; other values that JSON has no form for are refused.
-/

namespace Rehearsal.Json

structure Style where
  sortKeys : Bool
  indent : Option String
  separators : Option (String × String)
  asciiOnly : Bool
  allowNan : Bool
  deriving DecidableEq, Repr

/-- One line, `", "` and `": "` between, all scripts escaped. -/
def Style.plain : Style := ⟨false, none, none, true, true⟩

def Style.between (style : Style) : String × String :=
  match style.separators with
  | some separators => separators
  | none => if style.indent.isSome then (",", ": ") else (", ", ": ")

/-- The line break before an element at a depth, if the style breaks lines. -/
def Style.lineBreak (style : Style) (depth : Nat) : List Char :=
  match style.indent with
  | none => []
  | some unit => '\n' :: (List.replicate depth unit.toList).flatten

def codeEscape (n : Nat) : List Char := '\\' :: 'u' :: (Text.hexDigits 4 n).toList

def escapeControl? (c : Char) : Option (List Char) :=
  if c = '"' then some ['\\', '"']
  else if c = '\\' then some ['\\', '\\']
  else if c = '\n' then some ['\\', 'n']
  else if c = '\r' then some ['\\', 'r']
  else if c = '\t' then some ['\\', 't']
  else if c = '\x0c' then some ['\\', 'f']
  else if c = '\x08' then some ['\\', 'b']
  else if c.toNat < 0x20 then some (codeEscape c.toNat)
  else none

def escapeChar (asciiOnly : Bool) (c : Char) : List Char :=
  match escapeControl? c with
  | some escape => escape
  | none =>
    if !asciiOnly || c.toNat < 0x7F then [c]
    else if c.toNat < 0x10000 then codeEscape c.toNat
    else
      let n := c.toNat - 0x10000
      codeEscape (0xD800 + n / 1024) ++ codeEscape (0xDC00 + n % 1024)

def writeText (asciiOnly : Bool) (s : String) : List Char :=
  '"' :: s.toList.flatMap (escapeChar asciiOnly) ++ ['"']

/-- What is said of an integer that is too long to be written. -/
def tooLong : Fault := .badValue
  "Exceeds the limit (4300 digits) for integer string conversion; use sys.set_int_max_str_digits() to increase the limit"

def writeInt (n : Int) : Except Fault (List Char) :=
  let digits := Nat.toDigits 10 n.natAbs
  if integerDigitLimit < digits.length then .error tooLong
  else .ok (if n < 0 then '-' :: digits else digits)

/-- A number; what is no number or not finite is refused, with its text if lines are broken. -/
def writeFloat (style : Style) (x : Binary64) : Except Fault (List Char) :=
  if x.isFinite then .ok x.text.toList
  else if !style.allowNan then
    .error (.badValue ("Out of range float values are not JSON compliant"
      ++ if style.indent.isSome then ": " ++ x.text else ""))
  else if x.isNan then .ok "NaN".toList
  else .ok (if x.isNegative then "-Infinity".toList else "Infinity".toList)

def writeBool (b : Bool) : List Char := if b then "true".toList else "false".toList

/-- The name under which an entry is written. -/
def writeName (style : Style) : Value → Except Fault (List Char)
  | .text s => .ok (writeText style.asciiOnly s)
  | .status s => .ok (writeText style.asciiOnly s.text)
  | .float x => (writeFloat style x).map fun cs => '"' :: cs ++ ['"']
  | .bool b => .ok ('"' :: writeBool b ++ ['"'])
  | .null => .ok "\"null\"".toList
  | .int n => (writeInt n).map fun cs => '"' :: cs ++ ['"']
  | key =>
    let type := if style.indent.isSome then key.typeName else key.qualifiedTypeName
    .error (.wrongType ("keys must be str, int, float, bool or None, not " ++ type))

/-- Elements with separators and line breaks, inside their brackets. -/
def enclose (style : Style) (depth : Nat) (opening closing : Char) (parts : List (List Char)) :
    List Char :=
  match parts with
  | [] => [opening, closing]
  | first :: rest =>
    let broken := style.lineBreak (depth + 1)
    let separator := style.between.1.toList ++ broken
    opening :: broken ++ first ++ rest.flatMap (separator ++ ·) ++ style.lineBreak depth
      ++ [closing]

/-- The outcomes of a list of parts, or the first failure. -/
def allOf : List (Except Fault (List Char)) → Except Fault (List (List Char))
  | [] => .ok []
  | .ok part :: rest => (allOf rest).map (part :: ·)
  | .error fault :: _ => .error fault

/-- An entry: its key, and its text or why it has none. -/
abbrev Written := Value × Except Fault (List Char)

/-- The entries in the order in which the style writes them. -/
def arrange (style : Style) (entries : List Written) : Except Fault (List Written) :=
  if style.sortKeys then Value.sortBy (·.1) entries else .ok entries

mutual

def write (style : Style) (depth : Nat) : Value → Except Fault (List Char)
  | .null => .ok "null".toList
  | .bool b => .ok (writeBool b)
  | .int n => writeInt n
  | .float x => writeFloat style x
  | .decimal d => writeFloat style d.toBinary64
  | .text s => .ok (writeText style.asciiOnly s)
  | .status s => .ok (writeText style.asciiOnly s.text)
  | .instant t => .ok (writeText style.asciiOnly t.isoText)
  | .list items => (allOf (writeItems style (depth + 1) items)).map (enclose style depth '[' ']')
  | .tuple items => (allOf (writeItems style (depth + 1) items)).map (enclose style depth '[' ']')
  | .map entries =>
    match arrange style (writeEntries style (depth + 1) entries) with
    | .error fault => .error fault
    | .ok entries => (allOf (entries.map (·.2))).map (enclose style depth '\x7b' '\x7d')
  | value =>
    .error (.wrongType ("Object of type " ++ value.typeName ++ " is not JSON serializable"))

def writeItems (style : Style) (depth : Nat) : List Value → List (Except Fault (List Char))
  | [] => []
  | item :: rest => write style depth item :: writeItems style depth rest

def writeEntries (style : Style) (depth : Nat) : List (Value × Value) → List Written
  | [] => []
  | (key, value) :: rest =>
    let text :=
      match writeName style key with
      | .error fault => .error fault
      | .ok name => (write style depth value).map (name ++ style.between.2.toList ++ ·)
    (key, text) :: writeEntries style depth rest

end

def text (style : Style) (value : Value) : Except Fault String :=
  (write style 0 value).map String.ofList

/-- The unit of indentation an option asks for. -/
def indentOption : Value → Except Fault (Option String)
  | .null => .ok none
  | .text s => .ok (some s)
  | .int n => .ok (some (String.ofList (List.replicate n.toNat ' ')))
  | .bool b => .ok (some (if b then " " else ""))
  | value =>
    .error (.wrongType ("can't multiply sequence by non-int of type '" ++ value.typeName ++ "'"))

def separatorsOption : Value → Except Fault (Option (String × String))
  | .null => .ok none
  | .list [.text item, .text name] => .ok (some (item, name))
  | .tuple [.text item, .text name] => .ok (some (item, name))
  | value =>
    .error (.wrongType ("make_encoder() argument 5 must be str, not " ++ value.typeName))

/-- A style with one option set. -/
def Style.set (style : Style) (name : String) (value : Value) : Except Fault Style :=
  if name = "sort_keys" then .ok { style with sortKeys := value.truthy }
  else if name = "ensure_ascii" then .ok { style with asciiOnly := value.truthy }
  else if name = "allow_nan" then .ok { style with allowNan := value.truthy }
  else if name = "indent" then
    (indentOption value).map fun indent => { style with indent := indent }
  else if name = "separators" then
    (separatorsOption value).map fun separators => { style with separators := separators }
  else .ok style

def Style.ofOptions (options : List (String × Value)) : Except Fault Style :=
  options.foldlM (fun style option => style.set option.1 option.2) Style.plain

end Rehearsal.Json
