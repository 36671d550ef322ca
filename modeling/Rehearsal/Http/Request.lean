import Rehearsal.Keyed
import Rehearsal.Text.LetterCase
import Rehearsal.Value

/-!
A request before it is sent, into which authentication writes.
-/

/-!
Header lists whose names ignore case, and the names that must not be shown.
-/

namespace Rehearsal

abbrev Headers := List (String × Value)

namespace Headers

/-- Sets a header: every spelling of its name goes, and the new one comes last. -/
def set (headers : Headers) (name : String) (value : Value) : Headers :=
  headers.filter (fun header => !Text.sameIgnoringCase header.1 name) ++ [(name, value)]

def setAll (headers : Headers) (more : Headers) : Headers :=
  more.foldl (fun headers header => headers.set header.1 header.2) headers

/-- Puts a header under exactly this name: in place if the name is there, else at the end. -/
def put (headers : Headers) (name : String) (value : Value) : Headers :=
  Keyed.put headers name value

def sensitive : List String :=
  ["authorization", "proxy-authorization", "x-api-key", "cookie", "set-cookie"]

def isSensitive (name : String) : Bool := sensitive.contains (Text.lower name)

def masked (headers : Headers) : Headers :=
  headers.map fun (name, value) => (name, if isSensitive name then .text "***" else value)

end Headers

/-! Requests. -/

structure ClientCertificate where
  certPath : Value
  keyPath : Value
  password : Value
  deriving Repr, Inhabited

structure Request where
  method : String
  url : String
  headers : Headers
  params : List (String × Value)
  body : Value
  timeout : Binary64
  certificate : Option ClientCertificate
  deriving Repr, Inhabited

namespace Request

def setHeader (request : Request) (name : String) (value : Value) : Request :=
  { request with headers := request.headers.set name value }

/-- Sets a parameter: every other one of its name goes, and the new one comes last. -/
def setParam (request : Request) (name : String) (value : Value) : Request :=
  { request with params := request.params.filter (fun param => param.1 != name) ++ [(name, value)] }

end Request

end Rehearsal
