import Rehearsal.Auth.Broker
import Rehearsal.Value.Same

/-!
The clients that the scenarios of a run share.

HTTP clients, one for each certificate, the loop they run on, the producer and the workers are opened
when they are first asked for, and once. Producers and consumers that a single step asks for are
opened for it alone. The pool writes down what happens to every client; closing it releases whatever
it holds, and from then on it opens nothing.
-/

namespace Rehearsal

inductive ClientRole where
  | http (certificate : Option ClientCertificate)
  | producer (config : ClientConfig)
  | consumer (config : ClientConfig)
  | workers
  deriving Repr, Inhabited

/-- What happens to a client; clients are numbered in the order in which they are opened. -/
inductive ClientEvent where
  | opened (client : Nat) (role : ClientRole)
  | used (client : Nat)
  | flushed (client : Nat)
  | closed (client : Nat)
  | loopStarted
  | loopStopped
  deriving Repr, Inhabited

def ClientCertificate.same (a b : ClientCertificate) : Bool :=
  a.certPath.same b.certPath && a.keyPath.same b.keyPath && a.password.same b.password

structure Pool where
  isClosed : Bool
  /-- Whether there is a broker to open clients of. -/
  hasBroker : Bool
  /-- Whether the loop runs that HTTP clients share. -/
  loop : Bool
  web : List (Option ClientCertificate × Nat)
  shared : Option Nat
  workers : Option Nat
  log : List ClientEvent
  deriving Repr, Inhabited

namespace Pool

def empty (hasBroker : Bool) : Pool := ⟨false, hasBroker, false, [], none, none, []⟩

def note (p : Pool) (event : ClientEvent) : Pool := { p with log := p.log ++ [event] }

def isOpening : ClientEvent → Bool
  | .opened .. => true
  | _ => false

def opened (p : Pool) : Nat := p.log.countP isOpening

def openClient (p : Pool) (role : ClientRole) (failure : Option Fault) : Except Fault Nat × Pool :=
  match failure with
  | some fault => (.error fault, p)
  | none => (.ok p.opened, p.note (.opened p.opened role))

def checkOpen (p : Pool) : Except Fault Unit :=
  if p.isClosed then .error (.configuration .poolClosed) else .ok ()

/-- Clients of a broker need a broker. -/
def checkBroker (p : Pool) : Except Fault Unit :=
  if p.hasBroker then .ok () else .error (.configuration .noBroker)

def sameCertificate : Option ClientCertificate → Option ClientCertificate → Bool
  | none, none => true
  | some a, some b => a.same b
  | _, _ => false

def web? (p : Pool) (certificate : Option ClientCertificate) : Option Nat :=
  (p.web.find? fun entry => sameCertificate entry.1 certificate).map (·.2)

/-- Starts the loop, unless it runs. -/
def startLoop (p : Pool) : Pool :=
  if p.loop then p else { p.note .loopStarted with loop := true }

/-- The HTTP client for a certificate. The loop goes on running if the client cannot be opened. -/
def httpClient (p : Pool) (certificate : Option ClientCertificate) (failure : Option Fault) :
    Except Fault Nat × Pool :=
  match p.web? certificate with
  | some client => (.ok client, p)
  | none =>
    match p.checkOpen with
    | .error fault => (.error fault, p)
    | .ok _ =>
      match p.startLoop.openClient (.http certificate) failure with
      | (.error fault, p) => (.error fault, p)
      | (.ok client, p) => (.ok client, { p with web := p.web ++ [(certificate, client)] })

def clearHttpClients (p : Pool) : Pool :=
  { p with web := [], log := p.log ++ p.web.map fun entry => .closed entry.2 }

def sharedProducer (p : Pool) (config : ClientConfig) (failure : Option Fault) :
    Except Fault Nat × Pool :=
  match p.shared with
  | some client => (.ok client, p)
  | none =>
    match p.checkOpen.bind fun _ => p.checkBroker with
    | .error fault => (.error fault, p)
    | .ok _ =>
      match p.openClient (.producer config) failure with
      | (.error fault, p) => (.error fault, p)
      | (.ok client, p) => (.ok client, { p with shared := some client })

/-- A client of the broker for one step alone. -/
def ownClient (p : Pool) (role : ClientRole) (failure : Option Fault) : Except Fault Nat × Pool :=
  match p.checkOpen.bind fun _ => p.checkBroker with
  | .error fault => (.error fault, p)
  | .ok _ => p.openClient role failure

def createProducer (p : Pool) (config : ClientConfig) (failure : Option Fault) :
    Except Fault Nat × Pool :=
  p.ownClient (.producer config) failure

def createConsumer (p : Pool) (config : ClientConfig) (failure : Option Fault) :
    Except Fault Nat × Pool :=
  p.ownClient (.consumer config) failure

def executor (p : Pool) (failure : Option Fault) : Except Fault Nat × Pool :=
  match p.workers with
  | some client => (.ok client, p)
  | none =>
    match p.checkOpen with
    | .error fault => (.error fault, p)
    | .ok _ =>
      match p.openClient .workers failure with
      | (.error fault, p) => (.error fault, p)
      | (.ok client, p) => (.ok client, { p with workers := some client })

def dispose (p : Pool) (producer : Nat) : Pool :=
  (p.note (.flushed producer)).note (.closed producer)

/-- Releases what the pool holds; a second time there is nothing to release. -/
def close (p : Pool) : Pool :=
  if p.isClosed then p
  else
    let released :=
      match p.shared with
      | some producer => p.dispose producer
      | none => p
    let released := released.clearHttpClients
    let released :=
      match p.workers with
      | some workers => released.note (.closed workers)
      | none => released
    let released := if released.loop then released.note .loopStopped else released
    { released with isClosed := true, loop := false, shared := none, workers := none }

def producerConfigs (p : Pool) : List ClientConfig :=
  p.log.filterMap fun
    | .opened _ (.producer config) => some config
    | _ => none

def consumerConfigs (p : Pool) : List ClientConfig :=
  p.log.filterMap fun
    | .opened _ (.consumer config) => some config
    | _ => none

def isProducer (p : Pool) (client : Nat) : Bool :=
  p.log.any fun
    | .opened other (.producer _) => other == client
    | _ => false

def isFlushOf (client : Nat) : ClientEvent → Bool
  | .flushed other => other == client
  | _ => false

def isCloseOf (client : Nat) : ClientEvent → Bool
  | .closed other => other == client
  | _ => false

def flushes (p : Pool) (client : Nat) : Nat := p.log.countP (isFlushOf client)

def closings (p : Pool) (client : Nat) : Nat := p.log.countP (isCloseOf client)

end Pool

structure Pools where
  all : List Pool
  standard : Option Nat
  deriving Repr, Inhabited

namespace Pools

def empty : Pools := ⟨[], none⟩

def add (ps : Pools) (p : Pool) : Nat × Pools := (ps.all.length, { ps with all := ps.all ++ [p] })

/-- The standard pool; a new one without a broker if there is none or it is closed. -/
def default (ps : Pools) : Nat × Pools :=
  match ps.standard with
  | some n =>
    match ps.all[n]? with
    | some p =>
      if p.isClosed then
        let (m, ps) := ps.add (Pool.empty false)
        (m, { ps with standard := some m })
      else (n, ps)
    | none => (n, ps)
  | none =>
    let (m, ps) := ps.add (Pool.empty false)
    (m, { ps with standard := some m })

end Pools

end Rehearsal
