import Rehearsal.Number.Numeral
import Rehearsal.Text.LetterCase
import Rehearsal.Text.Quoted
import Rehearsal.Url.Host
import Rehearsal.Url.Reference

/-!
The address that a request goes to.

Scheme and host are in lower case, the default port of a scheme is left out, dots are taken out of
the path, and what is not safe in a part is percent-encoded; a percent sign is safe everywhere, so codes
that are there stay.
A text without scheme or host is a path on an unnamed host.
-/

namespace Rehearsal.Url

inductive TargetFlaw where
  | tooLong
  | control (c : Char) (position : Nat)
  | port (text : String)
  | ipv4 (host : String)
  | ipv6 (host : String)
  | hostName (host : String)
  | rootlessPath
  | doubledSlash
  | leadingColon
  deriving DecidableEq, Repr

def TargetFlaw.message : TargetFlaw → String
  | .tooLong => "URL too long"
  | .control c position =>
    "Invalid non-printable ASCII character in URL, " ++ Text.quoted (String.ofList [c])
      ++ " at position " ++ toString position ++ "."
  | .port text => "Invalid port: " ++ Text.quoted text
  | .ipv4 host => "Invalid IPv4 address: " ++ Text.quoted host
  | .ipv6 host => "Invalid IPv6 address: " ++ Text.quoted host
  | .hostName host => "Invalid IDNA hostname: " ++ Text.quoted host
  | .rootlessPath => "For absolute URLs, path must be empty or begin with '/'"
  | .doubledSlash => "Relative URLs cannot have a path starting with '//'"
  | .leadingColon => "Relative URLs cannot have a path starting with ':'"

structure Target where
  scheme : Chars
  user : Chars
  host : Chars
  port : Option Int
  path : Chars
  query : Option Chars
  fragment : Option Chars
  deriving DecidableEq, Repr

def isControl (c : Char) : Bool := c.toNat < 32 || c.toNat == 127

def isPrintableAscii (c : Char) : Bool := 32 < c.toNat && c.toNat < 127

def isQuerySafe (c : Char) : Bool := isPrintableAscii c && !(['"', '#', '<', '>'].contains c)

def isFragmentSafe (c : Char) : Bool := isPrintableAscii c && !(['"', '<', '>', '\x60'].contains c)

def isPathSafe (c : Char) : Bool :=
  isQuerySafe c && !(['?', '\x60', '\x7b', '\x7d'].contains c)

def isUserSafe (c : Char) : Bool :=
  isPathSafe c && !(['/', ';', '=', '@', '[', '\\', ']', '^', '|'].contains c)

def isHostSafe (c : Char) : Bool :=
  "!$&'()*+,;=".toList.contains c || ['"', '\x60', '\x7b', '\x7d', '%', '|', '\\'].contains c

def quote (isSafe : Char → Bool) (cs : Chars) : Chars :=
  cs.flatMap fun c => if isUnreserved c || isSafe c then [c] else percentChar c

/-- A host in lower case: characters that no host has are percent-encoded, and other scripts are
written in ASCII. -/
def hostText (host : Chars) : Except TargetFlaw Chars :=
  let name := (Text.lower (String.ofList host)).toList
  if HostName.isAscii host then .ok (quote isHostSafe name)
  else
    match HostName.write name with
    | some text => .ok text
    | none => .error (.hostName (String.ofList host))

/-- Whether a text is four runs of digits with one character between each two. -/
def looksLikeIpv4 (marks : Nat) (run : Bool) : Chars → Bool
  | [] => marks == 0 && run
  | c :: rest =>
    (c.isDigit && looksLikeIpv4 marks true rest)
      || (run && match marks with
        | 0 => false
        | marks + 1 => looksLikeIpv4 marks false rest)

def readHost (host : Chars) : Except TargetFlaw Chars :=
  if host.isEmpty then .ok []
  else if looksLikeIpv4 3 false host then
    if HostAddress.isDotted host then .ok host else .error (.ipv4 (String.ofList host))
  else if host.head? == some '[' && host.getLast? == some ']' then
    let inside := (host.drop 1).dropLast
    if HostAddress.isGrouped inside then .ok inside else .error (.ipv6 (String.ofList host))
  else hostText host

def defaultPort? (scheme : Chars) : Option Int :=
  match String.ofList scheme with
  | "ftp" => some 21
  | "http" => some 80
  | "https" => some 443
  | "ws" => some 80
  | "wss" => some 443
  | _ => none

def readPort (scheme port : Chars) : Except TargetFlaw (Option Int) :=
  if port.isEmpty then .ok none
  else
    match Numeral.readInt? port with
    | none => .error (.port (String.ofList port))
    | some n => .ok (if defaultPort? scheme == some n then none else some n)

def cutLast (mark : Char) (cs : Chars) : Chars × Chars :=
  let last := (cs.reverse.takeWhile (· != mark)).reverse
  (cs.take (cs.length - last.length - 1), last)

/-- The host at the front of an authority without its user, and the text after it. -/
def takeHost (cs : Chars) : Chars × Chars :=
  if cs.head? == some '[' && cs.contains ']' then
    let tail := (cs.reverse.takeWhile (· != ']')).reverse
    (cs.take (cs.length - tail.length), tail)
  else (cs.takeWhile fun c => c != ':' && c != '@', cs.dropWhile fun c => c != ':' && c != '@')

/-- Takes single dots out of a path and lets a double dot remove the segment before it. -/
def settleDots (kept : List Chars) : List Chars → List Chars
  | [] => kept
  | s :: rest =>
    if s = ['.'] then settleDots kept rest
    else if s = ['.', '.'] then
      settleDots (if kept = [[]] then kept else kept.dropLast) rest
    else settleDots (kept ++ [s]) rest

def settledPath (path : Chars) : Chars := joinSegments (settleDots [] (segments path))

namespace Target

/-- The address with these parts, each brought into its normal form. -/
def ofParts (scheme authority path : Chars) (query fragment : Option Chars) :
    Except TargetFlaw Target := do
  let (user, rest) := if authority.contains '@' then cutLast '@' authority else ([], authority)
  let (host, rest) := takeHost rest
  let user := quote isUserSafe user
  let host ← readHost host
  let port ← readPort scheme (if rest.head? == some ':' then rest.drop 1 else rest)
  let hasAuthority := !user.isEmpty || !host.isEmpty || port.isSome
  let hasScheme := !scheme.isEmpty
  if hasAuthority && !path.isEmpty && path.head? != some '/' then throw .rootlessPath
  if !hasAuthority && !hasScheme && path.take 2 == ['/', '/'] then throw .doubledSlash
  if !hasAuthority && !hasScheme && path.head? == some ':' then throw .leadingColon
  let path := if hasScheme || hasAuthority then settledPath path else path
  return ⟨scheme.map Char.toLower, user, host, port, quote isPathSafe path,
    query.map (quote isQuerySafe), fragment.map (quote isFragmentSafe)⟩

/-- The scheme of a text as it is written, and the text after its colon. -/
def takeRawScheme (cs : Chars) : Chars × Chars :=
  let scheme := cs.takeWhile isSchemePart
  match cs.dropWhile isSchemePart with
  | ':' :: rest =>
    if scheme.isEmpty || scheme.head?.any isSchemeStart then (scheme, rest) else ([], cs)
  | _ => ([], cs)

def read (text : Chars) : Except TargetFlaw Target :=
  if 65536 < text.length then .error .tooLong
  else
    match text.findIdx? isControl with
    | some position => .error (.control ((text[position]?).getD ' ') position)
    | none =>
      let (scheme, rest) := takeRawScheme text
      let (authority, rest) := takeAuthority rest
      let fragment := (cut '#' rest).map (·.2)
      let rest := (cutOff '#' rest).1
      ofParts scheme authority (cutOff '?' rest).1 ((cut '?' rest).map (·.2)) fragment

def authority (t : Target) : Chars :=
  (if t.user.isEmpty then [] else t.user ++ ['@'])
    ++ (if t.host.contains ':' then '[' :: t.host ++ [']'] else t.host)
    ++ (match t.port with
      | some n => ':' :: (toString n).toList
      | none => [])

def isAbsolute (t : Target) : Bool := !t.scheme.isEmpty && !t.host.isEmpty

/-- The address a request with this text goes to: without scheme or host only path and query
count. -/
def ofText (text : String) : Except TargetFlaw Target := do
  let t ← read text.toList
  if t.isAbsolute then return t
  else ofParts [] [] ('/' :: t.path.dropWhile (· == '/')) t.query none

/-- The address with its query replaced; nothing or no parameters takes it away. -/
def withQuery (t : Target) (query : Option Chars) : Except TargetFlaw Target :=
  ofParts t.scheme t.authority t.path query t.fragment

def chars (t : Target) : Chars :=
  (if t.scheme.isEmpty then [] else t.scheme ++ [':'])
    ++ (if t.authority.isEmpty then [] else '/' :: '/' :: t.authority)
    ++ t.path
    ++ (match t.query with
      | some query => '?' :: query
      | none => [])
    ++ (match t.fragment with
      | some fragment => '#' :: fragment
      | none => [])

def text (t : Target) : String := String.ofList t.chars

end Target

end Rehearsal.Url
