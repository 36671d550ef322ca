import Rehearsal.Gherkin.Scene
import Rehearsal.Logging
import Rehearsal.Report
import Rehearsal.Settings.Loading

/-!
A run of feature files: settings and logging are made ready before it, and each scenario starts with
nothing behind it and leaves a report of what it executed.
-/

namespace Rehearsal.Gherkin

structure Options where
  settings : Option String := none
  environment : Option String := none
  logLevel : Option String := none
  deriving DecidableEq, Repr, Inhabited

structure Suite where
  settings : Settings
  logging : Logging
  outlet : Outlet := {}
  deriving Repr, Inhabited

namespace Suite

def start (m : Machine) (logging : Logging) (options : Options) : Except Fault Suite := do
  let logging ← logging.configure (options.logLevel.getD Logging.usualLevel)
  return { settings := ← Settings.load m options.settings options.environment, logging := logging }

def requestTag : String := "http"

/-- Why a scenario with certain tags is not played. -/
def reasonToSkip? (s : Suite) (tags : List String) : Option String :=
  if tags.contains requestTag && s.settings.http.baseUrl == "" then
    some "No http.base_url configured (set ASSURED_BASE_URL)"
  else none

def scene (s : Suite) : Scene := { engine := { settings := s.settings } }

/-- Reports what a scenario executed, if it executed anything. -/
def report (s : Suite) (now : Instant) (name : String) (engine : Engine) :
    Except Fault Unit × Suite :=
  if engine.history.isEmpty then (.ok (), s)
  else
    let (outcome, outlet) := s.outlet.write s.settings.report (Report.build now name engine.history)
    (outcome, { s with outlet := outlet })

end Suite

end Rehearsal.Gherkin
