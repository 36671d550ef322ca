import Rehearsal.Auth.TokenService
import Rehearsal.Broker.Cluster
import Rehearsal.Pool
import Rehearsal.Settings
import Rehearsal.Step.Result

/-!
What steps are run against: the clients of a pool, a cluster, the endpoints that answer requests, and
the clock.
-/

namespace Rehearsal

structure World where
  pool : Pool
  cluster : Cluster
  web : Endpoint Request Answer
  tokens : TokenService
  /-- Why a certificate cannot be loaded, if it cannot. -/
  flawOf : ClientCertificate → Option String
  now : Instant
  /-- The last part of the identity of a client, by the number of the client. -/
  suffix : Nat → String

namespace World

/-- Makes a change to the pool that may fail. -/
def withPool {α : Type} (w : World) (outcome : Except Fault α × Pool) : Except Fault α × World :=
  (outcome.1, { w with pool := outcome.2 })

def note (w : World) (event : ClientEvent) : World := { w with pool := w.pool.note event }

def certificateFault (w : World) (certificate : Option ClientCertificate) : Option Fault :=
  certificate.bind fun cert => (w.flawOf cert).map fun why =>
    .configuration (.certificate cert.certPath.display why)

end World

/-- Metadata of a step that ran once and is over. -/
def StepMetadata.ofRun (now : Instant) (ok : Bool) : StepMetadata :=
  { started := some now, completed := some now, attempts := 1
    status := if ok then .succeeded else .failed }

/-- The result of a step that a fault ended. -/
def StepResult.failure (now : Instant) (kind : StepKind) (fault : Fault) (payload : Value)
    (properties : List (String × Value)) : StepResult :=
  { kind := kind, success := false, payload := payload, properties := properties
    errors := [fault.message], error := some fault, metadata := .ofRun now false }

/-- The first of two configurations that is given. -/
def given {α : Type} (first second : Option α) : Option α :=
  match first with
  | some a => some a
  | none => second

end Rehearsal
