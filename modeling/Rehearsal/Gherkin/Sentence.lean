import Rehearsal.Keyed
import Rehearsal.Number.Numeral
import Rehearsal.Text.Basic
import Rehearsal.Value

/-!
The sentences of feature files and what each asks for.

Sentences are of three roles. A sentence means what the first pattern of its role says that matches
it; one that no pattern matches has no meaning.
-/

/-!
Patterns for the sentences of a feature file.

A pattern is made of words and gaps. It matches a sentence as a whole: a gap for text takes at least
one character and as few as the rest of the pattern allows, a gap for a number takes an integer.
-/

namespace Rehearsal.Gherkin

inductive Part where
  | words (text : String)
  | text (name : String)
  | number (name : String)
  deriving DecidableEq, Repr, Inhabited

abbrev Pattern := List Part

abbrev Filling := List (String × Value)

def dropWords : List Char → List Char → Option (List Char)
  | [], cs => some cs
  | _ :: _, [] => none
  | w :: words, c :: cs => if w = c then dropWords words cs else none

/-- The base that the marker after a leading zero stands for. -/
def base? : Char → Option Nat
  | 'b' => some 2
  | 'B' => some 2
  | 'o' => some 8
  | 'O' => some 8
  | 'x' => some 16
  | 'X' => some 16
  | _ => none

/-- The digits of a base at the front of a text, as a number, if there are any. -/
def takeDigits (base : Nat) (cs : List Char) : Option (Nat × List Char) :=
  let digits := (cs.takeWhile fun c => (Text.digitIn? base c).isSome).filterMap (Text.digitIn? base)
  if digits.isEmpty then none
  else some (digits.foldl (fun n d => n * base + d) 0, cs.drop digits.length)

/-- A number without its sign: decimal, or in the base that its first two characters name. -/
def takeNumber (cs : List Char) : Option (Nat × List Char) :=
  match cs with
  | '0' :: marker :: rest =>
    match (base? marker).bind fun base => takeDigits base rest with
    | some taken => some taken
    | none => takeDigits 10 cs
  | cs => takeDigits 10 cs

/-- An integer at the front of a text; blanks and a sign may stand before it. -/
def takeInteger (cs : List Char) : Option (Int × List Char) :=
  match cs.dropWhile (· == ' ') with
  | '-' :: rest => (takeNumber rest).map fun (n, left) => (-(n : Int), left)
  | '+' :: rest => (takeNumber rest).map fun (n, left) => ((n : Int), left)
  | rest => (takeNumber rest).map fun (n, left) => ((n : Int), left)

/-- The shortest beginning of a text, in order, after which the rest is accepted; `taken` holds the
characters before it in reverse. -/
def shortest (accepts : List Char → Option Filling) (taken : List Char) :
    List Char → Option (String × Filling)
  | [] =>
    if taken.isEmpty then none
    else (accepts []).map fun filling => (String.ofList taken.reverse, filling)
  | c :: rest =>
    let here :=
      if taken.isEmpty then none
      else (accepts (c :: rest)).map fun filling => (String.ofList taken.reverse, filling)
    match here with
    | some found => some found
    | none => shortest accepts (c :: taken) rest

namespace Pattern

def fill? : Pattern → List Char → Option Filling
  | [], cs => if cs.isEmpty then some [] else none
  | .words text :: rest, cs => (dropWords text.toList cs).bind (fill? rest)
  | .text name :: rest, cs =>
    (shortest (fill? rest) [] cs).map fun (taken, filling) => (name, .text taken) :: filling
  | .number name :: rest, cs =>
    match takeInteger cs with
    | none => none
    | some (n, left) => (fill? rest left).map ((name, .int n) :: ·)

end Pattern

/-! Sentences and their meanings. -/

inductive Role where
  | given
  | whens
  | thens
  deriving DecidableEq, Repr, Inhabited

inductive Deed where
  | resource (path : String)
  | requestHeader (name value : String)
  | queryParam (name value : String)
  | bearer (token : String)
  | basic (username password : String)
  | apiKey (value : String)
  | chooseTopic (topic : String)
  | send (method : String)
  | sendBody (method : String)
  | produce
  | produceKeyed (key : String)
  | produceBatch
  | consume
  | consumeWithin (seconds : Int)
  | consumeBatch (count : Int)
  | statusIs (code : Int)
  | headerIs (name value : String)
  | persisted
  | keyIs (key : String)
  | batchCount (count : Int)
  | succeeds
  | fails
  | pathEquals (path value : String)
  | pathExists (path : String)
  | save (name : String)
  deriving DecidableEq, Repr, Inhabited

namespace Filling

def text (filling : Filling) (name : String) : String :=
  match Keyed.get? filling name with
  | some (.text s) => s
  | _ => ""

def number (filling : Filling) (name : String) : Int :=
  match Keyed.get? filling name with
  | some (.int n) => n
  | _ => 0

end Filling

structure Rule where
  role : Role
  pattern : Pattern
  deed : Filling → Deed

def quote : String := "\""

def quotedGap (before name : String) : Pattern := [.words (before ++ quote), .text name, .words quote]

def quotedGaps (before first between second : String) : Pattern :=
  [.words (before ++ quote), .text first, .words (quote ++ between ++ quote), .text second,
    .words quote]

def givenRules : List Rule := [
  ⟨.given, quotedGap "the API resource " "path", fun f => .resource (f.text "path")⟩,
  ⟨.given, quotedGaps "the request header " "name" " is " "value",
    fun f => .requestHeader (f.text "name") (f.text "value")⟩,
  ⟨.given, quotedGaps "the query parameter " "name" " is " "value",
    fun f => .queryParam (f.text "name") (f.text "value")⟩,
  ⟨.given, quotedGap "I am authenticated with bearer token " "token",
    fun f => .bearer (f.text "token")⟩,
  ⟨.given, quotedGaps "I am authenticated as " "username" " with password " "password",
    fun f => .basic (f.text "username") (f.text "password")⟩,
  ⟨.given, quotedGap "I am authenticated with API key " "value", fun f => .apiKey (f.text "value")⟩,
  ⟨.given, quotedGap "the topic " "topic", fun f => .chooseTopic (f.text "topic")⟩]

def whenRules : List Rule := [
  ⟨.whens, [.words "I send a ", .text "method", .words " request"],
    fun f => .send (f.text "method")⟩,
  ⟨.whens, [.words "I send a ", .text "method", .words " request with body:"],
    fun f => .sendBody (f.text "method")⟩,
  ⟨.whens, [.words "I produce the message:"], fun _ => .produce⟩,
  ⟨.whens, [.words "I produce the message with key \"", .text "key", .words "\":"],
    fun f => .produceKeyed (f.text "key")⟩,
  ⟨.whens, [.words "I produce the messages:"], fun _ => .produceBatch⟩,
  ⟨.whens, [.words "I consume a message"], fun _ => .consume⟩,
  ⟨.whens, [.words "I consume a message within ", .number "seconds", .words " seconds"],
    fun f => .consumeWithin (f.number "seconds")⟩,
  ⟨.whens, [.words "I consume ", .number "count", .words " messages"],
    fun f => .consumeBatch (f.number "count")⟩]

def thenRules : List Rule := [
  ⟨.thens, [.words "the response status should be ", .number "code"],
    fun f => .statusIs (f.number "code")⟩,
  ⟨.thens, quotedGaps "the response header " "name" " should be " "value",
    fun f => .headerIs (f.text "name") (f.text "value")⟩,
  ⟨.thens, [.words "the message should be persisted"], fun _ => .persisted⟩,
  ⟨.thens, quotedGap "the message key should be " "key", fun f => .keyIs (f.text "key")⟩,
  ⟨.thens, [.words "the batch should contain ", .number "count", .words " messages"],
    fun f => .batchCount (f.number "count")⟩,
  ⟨.thens, [.words "the step should succeed"], fun _ => .succeeds⟩,
  ⟨.thens, [.words "the step should fail"], fun _ => .fails⟩,
  ⟨.thens, quotedGaps "the JSON path " "path" " should equal " "value",
    fun f => .pathEquals (f.text "path") (f.text "value")⟩,
  ⟨.thens, [.words "the JSON path \"", .text "path", .words "\" should exist"],
    fun f => .pathExists (f.text "path")⟩,
  ⟨.thens, quotedGap "I save the step as " "name", fun f => .save (f.text "name")⟩]

def rules : List Rule := givenRules ++ whenRules ++ thenRules

/-- What a sentence fills into the first pattern of its role that it matches, and what it asks for. -/
def read? (role : Role) (sentence : String) : Option (Filling × Deed) :=
  (rules.filter fun rule => rule.role = role).findSome? fun rule =>
    (rule.pattern.fill? sentence.toList).map fun filling => (filling, rule.deed filling)

end Rehearsal.Gherkin
