import Rehearsal.Text.Quoted
import Rehearsal.Url.Host

/-!
References to resources: their parts, and how a relative one is resolved against a base.

A reference is read leniently: blanks and controls before it and line breaks and tabs in it are
dropped, and a scheme is what stands before the first colon if it looks like one.
-/

namespace Rehearsal.Url

abbrev Chars := List Char

structure Reference where
  scheme : Chars
  authority : Chars
  path : Chars
  params : Chars
  query : Chars
  fragment : Chars
  deriving DecidableEq, Repr

/-- Schemes whose references are resolved against a base. -/
def relativeSchemes : List String :=
  ["", "ftp", "http", "gopher", "nntp", "imap", "wais", "file", "https", "shttp", "mms",
    "prospero", "rtsp", "rtsps", "rtspu", "sftp", "svn", "svn+ssh", "ws", "wss"]

def authoritySchemes : List String :=
  ["", "ftp", "http", "gopher", "nntp", "telnet", "imap", "wais", "file", "mms", "https", "shttp",
    "snews", "prospero", "rtsp", "rtsps", "rtspu", "rsync", "svn", "svn+ssh", "sftp", "nfs", "git",
    "git+ssh", "ws", "wss", "itms-services"]

/-- Schemes whose last path segment may carry parameters after a semicolon. -/
def paramSchemes : List String :=
  ["", "ftp", "hdl", "prospero", "http", "imap", "https", "shttp", "rtsp", "rtsps", "rtspu", "sip",
    "sips", "mms", "sftp", "tel"]

def isSchemeStart (c : Char) : Bool := ('a' ≤ c && c ≤ 'z') || ('A' ≤ c && c ≤ 'Z')

def isSchemePart (c : Char) : Bool :=
  isSchemeStart c || ('0' ≤ c && c ≤ '9') || c == '+' || c == '-' || c == '.'

/-- The text before the first occurrence of a character and the text after it, if it occurs. -/
def cut (mark : Char) (cs : Chars) : Option (Chars × Chars) :=
  match cs.dropWhile (· != mark) with
  | [] => none
  | _ :: rest => some (cs.takeWhile (· != mark), rest)

/-- Splits the part after a mark off; empty if the mark is not there. -/
def cutOff (mark : Char) (cs : Chars) : Chars × Chars := (cut mark cs).getD (cs, [])

/-- The scheme of a text, in lower case, and the text after its colon. -/
def takeScheme (cs : Chars) : Chars × Chars :=
  match cs with
  | [] => ([], cs)
  | c :: _ =>
    if isSchemeStart c then
      match cut ':' cs with
      | some (scheme, rest) =>
        if scheme.all isSchemePart then (scheme.map Char.toLower, rest) else ([], cs)
      | none => ([], cs)
    else ([], cs)

def isAuthorityEnd (c : Char) : Bool := c == '/' || c == '?' || c == '#'

def takeAuthority (cs : Chars) : Chars × Chars :=
  match cs with
  | '/' :: '/' :: rest =>
    (rest.takeWhile (fun c => !isAuthorityEnd c), rest.dropWhile (fun c => !isAuthorityEnd c))
  | _ => ([], cs)

/-- Splits parameters off the last segment of a path. -/
def takeParams (cs : Chars) : Chars × Chars :=
  let last := (cs.reverse.takeWhile (· != '/')).reverse
  match cut ';' last with
  | some (name, params) => (cs.take (cs.length - last.length) ++ name, params)
  | none => (cs, [])

def clean (cs : Chars) : Chars :=
  (cs.dropWhile fun c => c.toNat ≤ 32).filter fun c => c != '\t' && c != '\r' && c != '\n'

def knows (schemes : List String) (scheme : Chars) : Bool :=
  schemes.contains (String.ofList scheme)

namespace Reference

/-- The parts of a reference; a reference without a scheme takes the given one. -/
def parse (defaultScheme : Chars) (text : Chars) : Reference :=
  let (scheme, rest) := takeScheme (clean text)
  let scheme := if scheme.isEmpty then defaultScheme else scheme
  let (authority, rest) := takeAuthority rest
  let (rest, fragment) := cutOff '#' rest
  let (path, query) := cutOff '?' rest
  let (path, params) :=
    if knows paramSchemes scheme && path.contains ';' then takeParams path else (path, [])
  ⟨scheme, authority, path, params, query, fragment⟩

def format (r : Reference) : Chars :=
  let path := if r.params.isEmpty then r.path else r.path ++ ';' :: r.params
  let doubled := path.take 2 == ['/', '/']
  let named :=
    !r.authority.isEmpty || (!r.scheme.isEmpty && knows authoritySchemes r.scheme) || doubled
  let rooted := if path.isEmpty || path.head? == some '/' then path else '/' :: path
  let body := if named then '/' :: '/' :: r.authority ++ rooted else path
  let whole := if r.scheme.isEmpty then body else r.scheme ++ ':' :: body
  let whole := if r.query.isEmpty then whole else whole ++ '?' :: r.query
  if r.fragment.isEmpty then whole else whole ++ '#' :: r.fragment

end Reference

def segments (cs : Chars) : List Chars :=
  match cs with
  | [] => [[]]
  | c :: rest =>
    if c = '/' then [] :: segments rest
    else
      match segments rest with
      | [] => [[c]]
      | first :: more => (c :: first) :: more

def joinSegments : List Chars → Chars
  | [] => []
  | [s] => s
  | s :: rest => s ++ '/' :: joinSegments rest

def removeDots (kept : List Chars) : List Chars → List Chars
  | [] => kept
  | s :: rest =>
    if s = ['.', '.'] then removeDots kept.dropLast rest
    else if s = ['.'] then removeDots kept rest
    else removeDots (kept ++ [s]) rest

/-- All but the empty segments between the first and the last one. -/
def dropEmptyInside : List Chars → List Chars
  | [] => []
  | [s] => [s]
  | first :: rest => first :: rest.dropLast.filter (fun s => !s.isEmpty) ++ rest.getLast?.toList

/-- The path of a relative path seen from a base path. -/
def resolvePath (base path : Chars) : Chars :=
  let baseParts := segments base
  let baseParts := if baseParts.getLast? == some [] then baseParts else baseParts.dropLast
  let parts :=
    if path.head? == some '/' then segments path
    else dropEmptyInside (baseParts ++ segments path)
  let kept := removeDots [] parts
  let last := parts.getLast?.getD []
  let kept := if last = ['.'] ∨ last = ['.', '.'] then kept ++ [[]] else kept
  let joined := joinSegments kept
  if joined.isEmpty then ['/'] else joined

def join (base text : Chars) : Chars :=
  if base.isEmpty then text
  else if text.isEmpty then base
  else
    let b := Reference.parse [] base
    let r := Reference.parse b.scheme text
    if r.scheme != b.scheme || !knows relativeSchemes r.scheme then text
    else if knows authoritySchemes r.scheme && !r.authority.isEmpty then r.format
    else
      let authority := if knows authoritySchemes r.scheme then b.authority else r.authority
      if r.path.isEmpty && r.params.isEmpty then
        Reference.format
          { r with
            authority := authority
            path := b.path
            params := b.params
            query := if r.query.isEmpty then b.query else r.query }
      else
        Reference.format { r with authority := authority, path := resolvePath b.path r.path }

/-- Whether a text names a scheme, so that it needs no base. -/
def isAbsolute (text : Chars) : Bool := !(Reference.parse [] text).scheme.isEmpty

inductive ReferenceFlaw where
  | openBracket
  | futureAddress
  | bracketedDotted
  | noAddress (host : Chars)
  | disguised (authority : Chars)
  deriving DecidableEq, Repr

def ReferenceFlaw.message : ReferenceFlaw → String
  | .openBracket => "Invalid IPv6 URL"
  | .futureAddress => "IPvFuture address is invalid"
  | .bracketedDotted => "An IPv4 address cannot be in brackets"
  | .noAddress host =>
    Text.quoted (String.ofList host) ++ " does not appear to be an IPv4 or IPv6 address"
  | .disguised authority =>
    "netloc '" ++ String.ofList authority
      ++ "' contains invalid characters under NFKC normalization"

/-- Characters that stand for a text with a slash, a question mark, a hash, an at sign or a
colon. -/
def disguises : List Nat :=
  [0x2047, 0x2048, 0x2049, 0x2100, 0x2101, 0x2105, 0x2106, 0x2a74, 0xfe13, 0xfe16, 0xfe55, 0xfe56,
    0xfe5f, 0xfe6b, 0xff03, 0xff0f, 0xff1a, 0xff1f, 0xff20]

def bracketedFlaw? (host : Chars) : Option ReferenceFlaw :=
  if host.head? = some 'v' then
    if HostAddress.isFuture host then none else some .futureAddress
  else if HostAddress.isDotted host then some .bracketedDotted
  else if HostAddress.isGrouped host then none
  else some (.noAddress host)

def authorityFlaw? (authority : Chars) : Option ReferenceFlaw :=
  let brackets :=
    if authority.contains '[' != authority.contains ']' then some .openBracket
    else if authority.contains '[' then
      bracketedFlaw? (cutOff ']' (cutOff '[' authority).2).1
    else none
  brackets.orElse fun _ =>
    if authority.any (fun c => disguises.contains c.toNat) then some (.disguised authority)
    else none

/-- What is wrong with a text as a reference: only its authority can be. -/
def referenceFlaw? (text : Chars) : Option ReferenceFlaw :=
  authorityFlaw? (Reference.parse [] text).authority

/-- A path placed under a base: one slash between them, whatever slashes they bring. -/
def under (base path : String) : Except ReferenceFlaw String :=
  let base := (base.toList.reverse.dropWhile (· == '/')).reverse ++ ['/']
  let path := path.toList.dropWhile (· == '/')
  let flaw := if path.isEmpty then none else (referenceFlaw? base).orElse fun _ => referenceFlaw? path
  match flaw with
  | some flaw => .error flaw
  | none => .ok (String.ofList (join base path))

end Rehearsal.Url
