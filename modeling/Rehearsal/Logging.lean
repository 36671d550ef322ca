import Rehearsal.Fault
import Rehearsal.Text.LetterCase

/-!
Where log messages go and from which level on.

Logging is set up once: if messages have a handler already, another set-up changes nothing.
-/

namespace Rehearsal

inductive LogLevel where
  | critical
  | error
  | warning
  | info
  | debug
  | unset
  deriving DecidableEq, Repr, Inhabited

namespace LogLevel

def name : LogLevel → String
  | .critical => "CRITICAL"
  | .error => "ERROR"
  | .warning => "WARNING"
  | .info => "INFO"
  | .debug => "DEBUG"
  | .unset => "NOTSET"

def ofName? (s : String) : Option LogLevel :=
  if s = "FATAL" then some .critical
  else if s = "WARN" then some .warning
  else [.critical, .error, .warning, .info, .debug, .unset].find? (·.name == s)

end LogLevel

/-- The handlers of all messages, and the levels of all messages, of the library's and of those about
requests. -/
structure Logging where
  handlers : Nat
  root : LogLevel
  library : LogLevel
  requests : LogLevel
  deriving DecidableEq, Repr, Inhabited

namespace Logging

/-- Nothing set up, with some handlers there from elsewhere. -/
def initial (handlers : Nat) : Logging := ⟨handlers, .warning, .unset, .unset⟩

def usualLevel : String := "INFO"

def unknownLevel : Fault := .badValue "Unable to configure logger 'assured'"

/-- Sets logging up for a level, unless it is set up. -/
def configure (l : Logging) (level : String) : Except Fault Logging :=
  if l.handlers ≠ 0 then .ok l
  else
    match LogLevel.ofName? (Text.upper level) with
    | some level => .ok ⟨1, .warning, level, .warning⟩
    | none => .error unknownLevel

/-- What is set up stays as it is. -/
theorem configure_of_handlers {l : Logging} (h : l.handlers ≠ 0) (level : String) :
    l.configure level = .ok l := by simp [configure, h]

end Logging

end Rehearsal
