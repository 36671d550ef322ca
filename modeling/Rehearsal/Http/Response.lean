import Rehearsal.Text.LetterCase
import Rehearsal.Text.Utf8

/-!
Answers to requests, and endpoints that give them.

An endpoint answers from a script as long as it lasts and by a rule from then on; it remembers what
it was asked. A script is any list of answers, so what holds for every endpoint holds for every
behaviour of the other side.
-/

namespace Rehearsal

structure Response where
  status : Int
  headers : List (String × String)
  body : List UInt8
  deriving DecidableEq, Repr, Inhabited

inductive Answer where
  | response (given : Response)
  | timedOut (why : String)
  | failed (why : String)
  | unfinished
  deriving DecidableEq, Repr, Inhabited

namespace Response

/-- The standard phrase of a status; empty if the status has none. -/
def phrase (status : Int) : String :=
  match status with
  | 100 => "Continue"
  | 101 => "Switching Protocols"
  | 102 => "Processing"
  | 103 => "Early Hints"
  | 200 => "OK"
  | 201 => "Created"
  | 202 => "Accepted"
  | 203 => "Non-Authoritative Information"
  | 204 => "No Content"
  | 205 => "Reset Content"
  | 206 => "Partial Content"
  | 207 => "Multi-Status"
  | 208 => "Already Reported"
  | 226 => "IM Used"
  | 300 => "Multiple Choices"
  | 301 => "Moved Permanently"
  | 302 => "Found"
  | 303 => "See Other"
  | 304 => "Not Modified"
  | 305 => "Use Proxy"
  | 307 => "Temporary Redirect"
  | 308 => "Permanent Redirect"
  | 400 => "Bad Request"
  | 401 => "Unauthorized"
  | 402 => "Payment Required"
  | 403 => "Forbidden"
  | 404 => "Not Found"
  | 405 => "Method Not Allowed"
  | 406 => "Not Acceptable"
  | 407 => "Proxy Authentication Required"
  | 408 => "Request Timeout"
  | 409 => "Conflict"
  | 410 => "Gone"
  | 411 => "Length Required"
  | 412 => "Precondition Failed"
  | 413 => "Request Entity Too Large"
  | 414 => "Request-URI Too Long"
  | 415 => "Unsupported Media Type"
  | 416 => "Requested Range Not Satisfiable"
  | 417 => "Expectation Failed"
  | 418 => "I'm a teapot"
  | 421 => "Misdirected Request"
  | 422 => "Unprocessable Entity"
  | 423 => "Locked"
  | 424 => "Failed Dependency"
  | 425 => "Too Early"
  | 426 => "Upgrade Required"
  | 428 => "Precondition Required"
  | 429 => "Too Many Requests"
  | 431 => "Request Header Fields Too Large"
  | 451 => "Unavailable For Legal Reasons"
  | 500 => "Internal Server Error"
  | 501 => "Not Implemented"
  | 502 => "Bad Gateway"
  | 503 => "Service Unavailable"
  | 504 => "Gateway Timeout"
  | 505 => "HTTP Version Not Supported"
  | 506 => "Variant Also Negotiates"
  | 507 => "Insufficient Storage"
  | 508 => "Loop Detected"
  | 510 => "Not Extended"
  | 511 => "Network Authentication Required"
  | _ => ""

def isSuccess (r : Response) : Bool := 200 ≤ r.status && r.status < 300

def text (r : Response) : String := Utf8.decodeLossy r.body

/-- The values of a header, whatever the case of its name, in the order received. -/
def headerValues (r : Response) (name : String) : List String :=
  (r.headers.filter fun header => Text.sameIgnoringCase header.1 name).map (·.2)

end Response

structure Endpoint (Q A : Type) where
  script : List (Option A)
  otherwise : Q → A
  received : List Q

namespace Endpoint

variable {Q A : Type}

/-- The answer to a request: the next one of the script, or the rule's if there is none. -/
def ask (e : Endpoint Q A) (request : Q) : A × Endpoint Q A :=
  let received := e.received ++ [request]
  match e.script with
  | some answer :: script => (answer, { e with script := script, received := received })
  | none :: script => (e.otherwise request, { e with script := script, received := received })
  | [] => (e.otherwise request, { e with received := received })

end Endpoint

end Rehearsal
