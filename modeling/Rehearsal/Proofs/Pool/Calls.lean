import Rehearsal.Pool

/-! What is asked of a pool, and all that it can do. Five of the calls ask for a client and differ
in what it is for and where it is kept: a client that is held is given, a pool that is closed or has
no broker refuses, and otherwise a client is opened, which may fail. -/

namespace Rehearsal

/-- A call of a pool; the failure is that of the client to be opened. -/
inductive PoolCall where
  | httpClient (certificate : Option ClientCertificate) (failure : Option Fault)
  | sharedProducer (config : ClientConfig) (failure : Option Fault)
  | createProducer (config : ClientConfig) (failure : Option Fault)
  | createConsumer (config : ClientConfig) (failure : Option Fault)
  | executor (failure : Option Fault)
  | clearHttpClients
  | close

namespace PoolCall

/-- What the client that is asked for is for, and why it cannot be opened, if it cannot. -/
def wanted? : PoolCall → Option (ClientRole × Option Fault)
  | .httpClient certificate failure => some (.http certificate, failure)
  | .sharedProducer config failure => some (.producer config, failure)
  | .createProducer config failure => some (.producer config, failure)
  | .createConsumer config failure => some (.consumer config, failure)
  | .executor failure => some (.workers, failure)
  | .clearHttpClients => none
  | .close => none

/-- Whether a call needs a broker. -/
def needsBroker : PoolCall → Bool
  | .sharedProducer .. => true
  | .createProducer .. => true
  | .createConsumer .. => true
  | _ => false

end PoolCall

namespace Pool

/-- The answer to a call, with the client if one is asked for, and the pool after it. -/
def ask (p : Pool) : PoolCall → Except Fault (Option Nat) × Pool
  | .httpClient certificate failure =>
    ((p.httpClient certificate failure).1.map some, (p.httpClient certificate failure).2)
  | .sharedProducer config failure =>
    ((p.sharedProducer config failure).1.map some, (p.sharedProducer config failure).2)
  | .createProducer config failure =>
    ((p.createProducer config failure).1.map some, (p.createProducer config failure).2)
  | .createConsumer config failure =>
    ((p.createConsumer config failure).1.map some, (p.createConsumer config failure).2)
  | .executor failure => ((p.executor failure).1.map some, (p.executor failure).2)
  | .clearHttpClients => (.ok none, p.clearHttpClients)
  | .close => (.ok none, p.close)

/-- The client that a call is answered with at once. -/
def held? (p : Pool) : PoolCall → Option Nat
  | .httpClient certificate _ => p.web? certificate
  | .sharedProducer .. => p.shared
  | .executor _ => p.workers
  | _ => none

def refusal? (p : Pool) (call : PoolCall) : Option Misconfiguration :=
  if p.isClosed then some .poolClosed
  else if call.needsBroker && !p.hasBroker then some .noBroker
  else none

/-- The pool when a client is about to be opened for a call. -/
def readied (p : Pool) : PoolCall → Pool
  | .httpClient .. => p.startLoop
  | _ => p

/-- The pool with a client where the call that it was opened for keeps it. -/
def holding (p : Pool) (call : PoolCall) (client : Nat) : Pool :=
  match call with
  | .httpClient certificate _ => { p with web := p.web ++ [(certificate, client)] }
  | .sharedProducer .. => { p with shared := some client }
  | .executor _ => { p with workers := some client }
  | _ => p

/-- The pool after a client was opened for a call. -/
def opening (p : Pool) (call : PoolCall) (role : ClientRole) : Pool :=
  ((p.readied call).note (.opened p.opened role)).holding call p.opened

variable {p : Pool} {call : PoolCall} {role : ClientRole} {fault : Fault}

@[simp]
theorem note_log (event : ClientEvent) : (p.note event).log = p.log ++ [event] := rfl

theorem startLoop_eq (p : Pool) : p.startLoop =
    { p with loop := true, log := p.log ++ if p.loop then [] else [.loopStarted] } := by
  obtain ⟨isClosed, hasBroker, loop, web, shared, workers, log⟩ := p
  cases loop <;> simp [startLoop, note]

theorem opened_startLoop (p : Pool) : p.startLoop.opened = p.opened := by
  rw [startLoop_eq, opened, opened, List.countP_append]
  split <;> rfl

/-- All that a pool can do when it is asked something. -/
inductive Asked (p : Pool) : PoolCall → Except Fault (Option Nat) → Pool → Prop
  | held {call : PoolCall} {client : Nat} (held : p.held? call = some client) :
      Asked p call (.ok (some client)) p
  | refused {call : PoolCall} {cause : Misconfiguration} (wanted : call.wanted?.isSome)
      (free : p.held? call = none) (refusal : p.refusal? call = some cause) :
      Asked p call (.error (.configuration cause)) p
  | failed {call : PoolCall} {role : ClientRole} {fault : Fault}
      (wanted : call.wanted? = some (role, some fault)) (free : p.held? call = none)
      (admitted : p.refusal? call = none) : Asked p call (.error fault) (p.readied call)
  | opened {call : PoolCall} {role : ClientRole} (wanted : call.wanted? = some (role, none))
      (free : p.held? call = none) (admitted : p.refusal? call = none) :
      Asked p call (.ok (some p.opened)) (p.opening call role)
  | cleared : Asked p .clearHttpClients (.ok none) p.clearHttpClients
  | closed : Asked p .close (.ok none) p.close

theorem open_of_admitted (h : p.refusal? call = none) : p.isClosed = false := by
  cases hclosed : p.isClosed with
  | false => rfl
  | true => simp [refusal?, hclosed] at h

theorem checkOpen_cases (p : Pool) (call : PoolCall) (h : call.needsBroker = false) :
    (p.refusal? call = none ∧ p.checkOpen = .ok ()) ∨
      ∃ cause, p.refusal? call = some cause ∧ p.checkOpen = .error (.configuration cause) := by
  cases hclosed : p.isClosed <;> simp [refusal?, checkOpen, hclosed, h]

theorem checkBroker_cases (p : Pool) (call : PoolCall) (h : call.needsBroker = true) :
    (p.refusal? call = none ∧ (p.checkOpen.bind fun _ => p.checkBroker) = .ok ()) ∨
      ∃ cause, p.refusal? call = some cause ∧
        (p.checkOpen.bind fun _ => p.checkBroker) = .error (.configuration cause) := by
  cases hclosed : p.isClosed <;> cases hbroker : p.hasBroker <;>
    simp [refusal?, checkOpen, checkBroker, hclosed, hbroker, h, Except.bind]

theorem asked_httpClient (p : Pool) (certificate : Option ClientCertificate)
    (failure : Option Fault) :
    let call := PoolCall.httpClient certificate failure
    Asked p call (p.ask call).1 (p.ask call).2 := by
  intro call
  cases hheld : p.held? call with
  | some client =>
    have hweb : p.web? certificate = some client := hheld
    simp only [call, ask, httpClient, hweb]
    exact .held hheld
  | none =>
    have hweb : p.web? certificate = none := hheld
    rcases p.checkOpen_cases call rfl with ⟨hadmitted, hcheck⟩ | ⟨cause, hrefused, hcheck⟩
    · simp only [call, ask, httpClient, hweb, hcheck]
      cases failure with
      | some fault => exact .failed rfl hheld hadmitted
      | none =>
        simp only [openClient, opened_startLoop]
        exact .opened rfl hheld hadmitted
    · simp only [call, ask, httpClient, hweb, hcheck]
      exact .refused rfl hheld hrefused

theorem asked_sharedProducer (p : Pool) (config : ClientConfig) (failure : Option Fault) :
    let call := PoolCall.sharedProducer config failure
    Asked p call (p.ask call).1 (p.ask call).2 := by
  intro call
  cases hheld : p.held? call with
  | some client =>
    have hshared : p.shared = some client := hheld
    simp only [call, ask, sharedProducer, hshared]
    exact .held hheld
  | none =>
    have hshared : p.shared = none := hheld
    rcases p.checkBroker_cases call rfl with
      ⟨hadmitted, hcheck⟩ | ⟨cause, hrefused, hcheck⟩
    · simp only [call, ask, sharedProducer, hshared, hcheck]
      cases failure with
      | some fault => exact .failed rfl hheld hadmitted
      | none => exact .opened rfl hheld hadmitted
    · simp only [call, ask, sharedProducer, hshared, hcheck]
      exact .refused rfl hheld hrefused

theorem asked_executor (p : Pool) (failure : Option Fault) :
    let call := PoolCall.executor failure
    Asked p call (p.ask call).1 (p.ask call).2 := by
  intro call
  cases hheld : p.held? call with
  | some client =>
    have hworkers : p.workers = some client := hheld
    simp only [call, ask, executor, hworkers]
    exact .held hheld
  | none =>
    have hworkers : p.workers = none := hheld
    rcases p.checkOpen_cases call rfl with ⟨hadmitted, hcheck⟩ | ⟨cause, hrefused, hcheck⟩
    · simp only [call, ask, executor, hworkers, hcheck]
      cases failure with
      | some fault => exact .failed rfl hheld hadmitted
      | none => exact .opened rfl hheld hadmitted
    · simp only [call, ask, executor, hworkers, hcheck]
      exact .refused rfl hheld hrefused

theorem asked_ownClient (p : Pool) {failure : Option Fault} (hbroker : call.needsBroker = true)
    (hwanted : call.wanted? = some (role, failure)) (hheld : p.held? call = none)
    (hreadied : p.readied call = p)
    (hopening : p.opening call role = p.note (.opened p.opened role)) :
    Asked p call ((p.ownClient role failure).1.map some) (p.ownClient role failure).2 := by
  rcases p.checkBroker_cases call hbroker with ⟨hadmitted, hcheck⟩ | ⟨cause, hrefused, hcheck⟩
  · simp only [ownClient, hcheck]
    cases failure with
    | some fault =>
      have h := Asked.failed hwanted hheld hadmitted
      rwa [hreadied] at h
    | none =>
      have h := Asked.opened hwanted hheld hadmitted
      rwa [hopening] at h
  · simp only [ownClient, hcheck]
    exact .refused (by rw [hwanted, Option.isSome_some]) hheld hrefused

theorem asked (p : Pool) (call : PoolCall) : Asked p call (p.ask call).1 (p.ask call).2 := by
  cases call with
  | httpClient certificate failure => exact p.asked_httpClient certificate failure
  | sharedProducer config failure => exact p.asked_sharedProducer config failure
  | createProducer config failure => exact p.asked_ownClient rfl rfl rfl rfl rfl
  | createConsumer config failure => exact p.asked_ownClient rfl rfl rfl rfl rfl
  | executor failure => exact p.asked_executor failure
  | clearHttpClients => exact .cleared
  | close => exact .closed

/-- What closing writes down: the producer is flushed and closed, then every HTTP client is closed,
then the workers, and the loop stops. -/
def shutting (p : Pool) : List ClientEvent :=
  (p.shared.toList.flatMap fun client => [.flushed client, .closed client]) ++
    (p.web.map fun entry => .closed entry.2) ++
    (p.workers.toList.map .closed) ++ if p.loop then [.loopStopped] else []

theorem close_open (h : p.isClosed = false) :
    p.close = { p with isClosed := true, loop := false, web := [], shared := none, workers := none,
                       log := p.log ++ p.shutting } := by
  obtain ⟨isClosed, hasBroker, loop, web, shared, workers, log⟩ := p
  cases h
  cases shared <;> cases workers <;> cases loop <;>
    simp [close, dispose, clearHttpClients, shutting, note]

theorem close_closed (h : p.isClosed = true) : p.close = p := by simp [close, h]

def history (p : Pool) : List PoolCall → List (PoolCall × Except Fault (Option Nat))
  | [] => []
  | call :: calls => (call, (p.ask call).1) :: (p.ask call).2.history calls

def after (p : Pool) (calls : List PoolCall) : Pool := calls.foldl (fun q call => (q.ask call).2) p

variable {calls : List PoolCall}

theorem after_concat : p.after (calls ++ [call]) = ((p.after calls).ask call).2 := by
  simp only [after, List.foldl_append, List.foldl_cons, List.foldl_nil]

theorem history_concat :
    p.history (calls ++ [call]) = p.history calls ++ [(call, ((p.after calls).ask call).1)] := by
  induction calls generalizing p with
  | nil => rfl
  | cons first rest ih => simp only [List.cons_append, history, ih, after, List.foldl_cons]

end Pool

end Rehearsal
