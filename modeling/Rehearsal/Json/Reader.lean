import Rehearsal.Number.Numeral
import Rehearsal.Value

/-!
Reading JSON text.

Each reader takes the characters that are left and returns what it read with the characters left
after it. A failure remembers how many characters were left where it happened, from which the line
and column follow. Besides strict JSON the words `NaN`, `Infinity` and `-Infinity` are numbers, and
of fields with one name the last value stays, at the place of the first.
-/

namespace Rehearsal.Json

inductive Flaw where
  | noValue
  | extraData
  | noComma
  | noColon
  | noPropertyName
  | openString
  | controlCharacter
  | badEscape
  | badUnicodeEscape
  | byteOrderMark
  | longInteger (digits : Nat)
  | decimalLimit
  deriving DecidableEq, Repr

def Flaw.text : Flaw → String
  | .noValue => "Expecting value"
  | .extraData => "Extra data"
  | .noComma => "Expecting ',' delimiter"
  | .noColon => "Expecting ':' delimiter"
  | .noPropertyName => "Expecting property name enclosed in double quotes"
  | .openString => "Unterminated string starting at"
  | .controlCharacter => "Invalid control character at"
  | .badEscape => "Invalid \\escape"
  | .badUnicodeEscape => "Invalid \\uXXXX escape"
  | .byteOrderMark => "Unexpected UTF-8 BOM (decode using utf-8-sig)"
  | .longInteger digits =>
    "Exceeds the limit (4300 digits) for integer string conversion: value has " ++ toString digits
      ++ " digits; use sys.set_int_max_str_digits() to increase the limit"
  | .decimalLimit => "[<class 'decimal.InvalidOperation'>]"

/-- A flaw, and how many characters were left where it was found. -/
structure Stop where
  flaw : Flaw
  left : Nat
  deriving DecidableEq, Repr

/-- How numbers with a point or an exponent are read. -/
inductive Fractions where
  | exact
  | double
  deriving DecidableEq, Repr

def isSpace (c : Char) : Bool := c == ' ' || c == '\t' || c == '\n' || c == '\r'

def skipSpace (cs : List Char) : List Char := cs.dropWhile isSpace

def hexValue? (c : Char) : Option Nat :=
  if '0' ≤ c ∧ c ≤ '9' then some (c.toNat - 48)
  else if 'a' ≤ c ∧ c ≤ 'f' then some (c.toNat - 87)
  else if 'A' ≤ c ∧ c ≤ 'F' then some (c.toNat - 55)
  else none

def hex4? (a b c d : Char) : Option Nat :=
  match hexValue? a, hexValue? b, hexValue? c, hexValue? d with
  | some a, some b, some c, some d => some (((a * 16 + b) * 16 + c) * 16 + d)
  | _, _, _, _ => none

def isHighSurrogate (n : Nat) : Bool := 0xD800 ≤ n && n < 0xDC00

def isLowSurrogate (n : Nat) : Bool := 0xDC00 ≤ n && n < 0xE000

/-- Stands for half of a character whose other half is missing. -/
def loneSurrogate : Char := Char.ofNat 0xFFFD

def joinSurrogates (high low : Nat) : Char :=
  Char.ofNat (0x10000 + (high - 0xD800) * 1024 + (low - 0xDC00))

/-- The characters of a first half that no second half follows. -/
def flushHalf : Option Nat → List Char
  | none => []
  | some _ => [loneSurrogate]

/-- What a code adds after a first half, if one is open: the characters, and the first half that is
open afterwards. -/
def addCode (half : Option Nat) (code : Nat) : List Char × Option Nat :=
  if isHighSurrogate code then (flushHalf half, some code)
  else if isLowSurrogate code then
    match half with
    | some high => ([joinSurrogates high code], none)
    | none => ([loneSurrogate], none)
  else (flushHalf half ++ [Char.ofNat code], none)

/-- The character that a backslash and this letter stand for. -/
def escaped? : Char → Option Char
  | '"' => some '"'
  | '\\' => some '\\'
  | '/' => some '/'
  | 'b' => some '\x08'
  | 'f' => some '\x0c'
  | 'n' => some '\n'
  | 'r' => some '\r'
  | 't' => some '\t'
  | _ => none

/-- What was read, with more characters in front. -/
def withFront (front : List Char) :
    Except Stop (List Char × List Char) → Except Stop (List Char × List Char)
  | .ok (cs, rest) => .ok (front ++ cs, rest)
  | .error stop => .error stop

/-- Reads the inside of a string up to its closing quote, with the first half of a character that
is open, if any; `opened` characters were left at the opening quote. -/
def readChars (opened : Nat) : Option Nat → List Char → Except Stop (List Char × List Char)
  | _, [] => .error ⟨.openString, opened⟩
  | half, '"' :: rest => .ok (flushHalf half, rest)
  | half, '\\' :: 'u' :: a :: b :: c :: d :: rest =>
    match hex4? a b c d with
    | none => .error ⟨.badUnicodeEscape, rest.length + 5⟩
    | some code =>
      if rest.isEmpty then .error ⟨.badUnicodeEscape, 5⟩
      else
        let (front, half) := addCode half code
        withFront front (readChars opened half rest)
  | _, ['\\'] => .error ⟨.openString, opened⟩
  | _, '\\' :: 'u' :: rest => .error ⟨.badUnicodeEscape, rest.length + 1⟩
  | half, '\\' :: letter :: rest =>
    match escaped? letter with
    | some c => withFront (flushHalf half ++ [c]) (readChars opened none rest)
    | none => .error ⟨.badEscape, rest.length + 2⟩
  | half, c :: rest =>
    if c.toNat < 0x20 then .error ⟨.controlCharacter, rest.length + 1⟩
    else withFront (flushHalf half ++ [c]) (readChars opened none rest)

/-- Reads a string whose opening quote stands before `cs`. -/
def readString (cs : List Char) : Except Stop (String × List Char) :=
  (readChars (cs.length + 1) none cs).map fun (chars, rest) => (String.ofList chars, rest)

/-- The digits of a whole number: a lone zero, or digits that start with another one. -/
def takeWhole : List Char → Option (List Char × List Char)
  | '0' :: rest => some (['0'], rest)
  | c :: rest =>
    if c.isDigit then some (c :: rest.takeWhile Char.isDigit, rest.dropWhile Char.isDigit)
    else none
  | [] => none

/-- The digits after a point, if a point with digits comes next. -/
def takeFraction : List Char → List Char × List Char
  | '.' :: rest =>
    if (rest.takeWhile Char.isDigit).isEmpty then ([], '.' :: rest)
    else (rest.takeWhile Char.isDigit, rest.dropWhile Char.isDigit)
  | cs => ([], cs)

/-- The exponent, if one comes next. -/
def takeExponent (cs : List Char) : Option Int × List Char :=
  match cs with
  | c :: rest =>
    if c = 'e' ∨ c = 'E' then
      let (negative, digits) := Numeral.takeSign rest
      let run := digits.takeWhile Char.isDigit
      if run.isEmpty then (none, cs)
      else
        let n := (Text.digitsValue run : Int)
        (some (if negative then -n else n), digits.dropWhile Char.isDigit)
    else (none, cs)
  | [] => (none, cs)

/-- The longest integer text that is read or written. -/
def integerDigitLimit : Nat := 4300

def numberValue (style : Fractions) (negative : Bool) (whole fraction : List Char)
    (exponent : Option Int) : Except Flaw Value :=
  if fraction.isEmpty && exponent.isNone then
    if integerDigitLimit < whole.length then .error (.longInteger whole.length)
    else
      let n : Int := Text.digitsValue whole
      .ok (.int (if negative then -n else n))
  else
    let numeral : Numeral :=
      ⟨negative, Text.digitsValue (whole ++ fraction), exponent.getD 0 - fraction.length⟩
    match style with
    | .double => .ok (.float numeral.toBinary64)
    | .exact =>
      match numeral.toDecimal? with
      | some d => .ok (.decimal d)
      | none => .error .decimalLimit

/-- Reads a number whose sign has been read; `start` characters were left at its beginning. -/
def readNumber (style : Fractions) (start : Nat) (negative : Bool) (cs : List Char) :
    Except Stop (Value × List Char) :=
  match takeWhole cs with
  | none => .error ⟨.noValue, start⟩
  | some (whole, rest) =>
    let (fraction, rest) := takeFraction rest
    let (exponent, rest) := takeExponent rest
    match numberValue style negative whole fraction exponent with
    | .ok value => .ok (value, rest)
    | .error flaw => .error ⟨flaw, start⟩

/-- Fields with one more put under a name: in place if the name is there, else at the end. -/
def putField (name : String) (value : Value) : List (Value × Value) → List (Value × Value)
  | [] => [(.text name, value)]
  | (key, old) :: rest =>
    if key.text? = some name then (key, value) :: rest else (key, old) :: putField name value rest

def fieldsOf (fields : List (String × Value)) : List (Value × Value) :=
  fields.foldl (fun made field => putField field.1 field.2 made) []

mutual

/-- Reads one value; the fuel is a bound on twice the depth of what it may take. -/
def readValue (style : Fractions) : Nat → List Char → Except Stop (Value × List Char)
  | 0, cs => .error ⟨.noValue, cs.length⟩
  | fuel + 1, cs =>
    match cs with
    | '"' :: rest =>
      match readString rest with
      | .ok (s, rest) => .ok (.text s, rest)
      | .error stop => .error stop
    | '\x7b' :: rest =>
      match skipSpace rest with
      | '\x7d' :: rest => .ok (.map [], rest)
      | start =>
        match readFields style fuel start with
        | .ok (fields, rest) => .ok (.map (fieldsOf fields), rest)
        | .error stop => .error stop
    | '[' :: rest =>
      match skipSpace rest with
      | ']' :: rest => .ok (.list [], rest)
      | start =>
        match readItems style fuel start with
        | .ok (items, rest) => .ok (.list items, rest)
        | .error stop => .error stop
    | 'n' :: 'u' :: 'l' :: 'l' :: rest => .ok (.null, rest)
    | 't' :: 'r' :: 'u' :: 'e' :: rest => .ok (.bool true, rest)
    | 'f' :: 'a' :: 'l' :: 's' :: 'e' :: rest => .ok (.bool false, rest)
    | 'N' :: 'a' :: 'N' :: rest => .ok (.float .nan, rest)
    | 'I' :: 'n' :: 'f' :: 'i' :: 'n' :: 'i' :: 't' :: 'y' :: rest =>
      .ok (.float (.infinity false), rest)
    | '-' :: 'I' :: 'n' :: 'f' :: 'i' :: 'n' :: 'i' :: 't' :: 'y' :: rest =>
      .ok (.float (.infinity true), rest)
    | '-' :: rest => readNumber style cs.length true rest
    | _ => readNumber style cs.length false cs

/-- Reads the items of a list from the first one to the closing bracket. -/
def readItems (style : Fractions) : Nat → List Char → Except Stop (List Value × List Char)
  | 0, cs => .error ⟨.noValue, cs.length⟩
  | fuel + 1, cs =>
    match readValue style fuel cs with
    | .error stop => .error stop
    | .ok (item, rest) =>
      match skipSpace rest with
      | ']' :: rest => .ok ([item], rest)
      | ',' :: rest =>
        match readItems style fuel (skipSpace rest) with
        | .ok (items, rest) => .ok (item :: items, rest)
        | .error stop => .error stop
      | rest => .error ⟨.noComma, rest.length⟩

/-- Reads the fields of a mapping from the first name to the closing brace. -/
def readFields (style : Fractions) :
    Nat → List Char → Except Stop (List (String × Value) × List Char)
  | 0, cs => .error ⟨.noPropertyName, cs.length⟩
  | fuel + 1, cs =>
    match cs with
    | '"' :: rest =>
      match readString rest with
      | .error stop => .error stop
      | .ok (name, rest) =>
        match skipSpace rest with
        | ':' :: rest =>
          match readValue style fuel (skipSpace rest) with
          | .error stop => .error stop
          | .ok (value, rest) =>
            match skipSpace rest with
            | '\x7d' :: rest => .ok ([(name, value)], rest)
            | ',' :: rest =>
              match readFields style fuel (skipSpace rest) with
              | .ok (fields, rest) => .ok ((name, value) :: fields, rest)
              | .error stop => .error stop
            | rest => .error ⟨.noComma, rest.length⟩
        | rest => .error ⟨.noColon, rest.length⟩
    | _ => .error ⟨.noPropertyName, cs.length⟩

end

/-- Reads a text that is one value with spaces around it. -/
def readChars? (style : Fractions) (cs : List Char) : Except Stop Value :=
  if cs.head? = some (Char.ofNat 0xFEFF) then .error ⟨.byteOrderMark, cs.length⟩
  else
    match readValue style (2 * cs.length + 2) (skipSpace cs) with
    | .error stop => .error stop
    | .ok (value, rest) =>
      match skipSpace rest with
      | [] => .ok value
      | rest => .error ⟨.extraData, rest.length⟩

structure Error where
  flaw : Flaw
  line : Nat
  column : Nat
  position : Nat
  deriving DecidableEq, Repr

def Stop.locate (stop : Stop) (cs : List Char) : Error :=
  let position := cs.length - stop.left
  let before := cs.take position
  ⟨stop.flaw, before.count '\n' + 1, (before.reverse.takeWhile (· != '\n')).length + 1, position⟩

def Error.message (e : Error) : String :=
  match e.flaw with
  | .longInteger _ => e.flaw.text
  | .decimalLimit => e.flaw.text
  | flaw =>
    flaw.text ++ ": line " ++ toString e.line ++ " column " ++ toString e.column ++ " (char "
      ++ toString e.position ++ ")"

def read (style : Fractions) (s : String) : Except Error Value :=
  match readChars? style s.toList with
  | .ok value => .ok value
  | .error stop => .error (stop.locate s.toList)

end Rehearsal.Json
