import Rehearsal.Broker.Client

/-!
A broker behind a connection that may fail.

A call to the broker goes through, or raises, or never returns, or changes what the broker confirms
from then on; scripts say which, call by call. Sends run on workers, each taking some time, so at a
deadline some are done, some are still running and some were never started. A schedule tells them
apart, and any schedule is possible.
-/

namespace Rehearsal

/-- What may happen to a call instead of going through. -/
inductive Disturbance where
  | raises (text : String)
  | hangs
  | confirms (status : DeliveryStatus)
  deriving DecidableEq, Repr, Inhabited

inductive SendOutcome where
  | delivered (report : DeliveryReport)
  | raised (why : String)
  | late
  deriving DecidableEq, Repr, Inhabited

inductive PollOutcome where
  | received (message : Message)
  | nothing
  | hung
  | raised (why : String)
  deriving DecidableEq, Repr, Inhabited

/-- The numbers of the sends that are done by the deadline, in the order in which they run, and of
those that run past it. -/
structure Schedule where
  prompt : List Nat
  tardy : List Nat
  deriving DecidableEq, Repr, Inhabited

namespace Schedule

def addPrompt (i : Nat) (s : Schedule) : Schedule := { s with prompt := i :: s.prompt }

def addTardy (i : Nat) (s : Schedule) : Schedule := { s with tardy := i :: s.tardy }

/-- The schedule of sends that workers take in order, each send when a worker is free; a worker whose
send runs past the deadline takes no other. The crew is given by the times at which it is free. -/
def plan (deadline : Binary64) (crew : List Binary64) (i : Nat) :
    List (Option Binary64) → Schedule
  | [] => ⟨[], []⟩
  | duration :: rest =>
    match crew.mergeSort Binary64.atMost with
    | [] => ⟨[], []⟩
    | free :: others =>
      if !free.less deadline then ⟨[], []⟩
      else
        match duration with
        | none => addTardy i (plan deadline others (i + 1) rest)
        | some seconds =>
          let finish := free + seconds
          if finish.atMost deadline then
            addPrompt i (plan deadline (finish :: others) (i + 1) rest)
          else addTardy i (plan deadline others (i + 1) rest)

def started (s : Schedule) : List Nat := s.prompt ++ s.tardy

end Schedule

/-- A send: the message, if its contents can be encoded, and how the call is disturbed. -/
structure Send where
  message : Except Fault Outgoing
  disturbance : Option Disturbance
  deriving Inhabited

namespace Send

/-- Gives each send its part of the script; a message that cannot be encoded is never sent. -/
def assign : List (Except Fault Outgoing) → List (Option Disturbance) → List Send
  | [], _ => []
  | .error fault :: rest, script => ⟨.error fault, none⟩ :: assign rest script
  | .ok message :: rest, [] => ⟨.ok message, none⟩ :: assign rest []
  | .ok message :: rest, next :: script => ⟨.ok message, next⟩ :: assign rest script

def calls (s : Send) : Bool :=
  match s.message with
  | .ok _ => true
  | .error _ => false

def duration (delay : Binary64) (s : Send) : Option Binary64 :=
  match s.message, s.disturbance with
  | .error _, _ => some (Binary64.ofNat 0)
  | .ok _, some .hangs => none
  | .ok _, some (.raises _) => some (Binary64.ofNat 0)
  | .ok _, _ => some delay

end Send

structure Cluster where
  broker : Broker
  /-- What happens to the calls of producers, one after another. -/
  sends : List (Option Disturbance)
  /-- What happens to the calls of consumers. -/
  polls : List (Option Disturbance)
  /-- The seconds that a call of a producer takes. -/
  delay : Binary64
  /-- How many sends run at a time. -/
  crew : Nat
  deriving Repr, Inhabited

namespace Cluster

def confirm (c : Cluster) (status : DeliveryStatus) : Cluster :=
  { c with broker := { c.broker with persistence := status } }

def deliver (c : Cluster) (out : Outgoing) : SendOutcome × Cluster :=
  match c.broker.append out with
  | (.ok report, broker) => (.delivered report, { c with broker := broker })
  | (.error fault, broker) => (.raised fault.message, { c with broker := broker })

def perform (c : Cluster) (send : Send) : SendOutcome × Cluster :=
  match send.message, send.disturbance with
  | .error fault, _ => (.raised fault.message, c)
  | .ok _, some (.raises text) => (.raised text, c)
  | .ok _, some .hangs => (.late, c)
  | .ok out, some (.confirms status) => (c.confirm status).deliver out
  | .ok out, none => c.deliver out

/-- Runs sends in an order; the outcome of each is kept under its number. -/
def performAll (c : Cluster) (sends : List Send) : List Nat → Keyed Nat SendOutcome × Cluster
  | [] => ([], c)
  | i :: order =>
    match sends[i]? with
    | none => c.performAll sends order
    | some send =>
      let (outcome, c) := c.perform send
      let (outcomes, c) := c.performAll sends order
      ((i, outcome) :: outcomes, c)

/-- Runs sends by a schedule: what each came to by the deadline, and the cluster after the last one
has ended. -/
def performBy (c : Cluster) (sends : List Send) (schedule : Schedule) :
    (Nat → SendOutcome) × Cluster :=
  let (outcomes, c) := c.performAll sends schedule.prompt
  let (_, c) := c.performAll sends schedule.tardy
  (fun i => (Keyed.get? outcomes i).getD .late, c)

/-- The sends of messages with the script's part for each. -/
def prepare (c : Cluster) (messages : List (Except Fault Outgoing)) : List Send :=
  Send.assign messages c.sends

def schedule (c : Cluster) (deadline : Binary64) (sends : List Send) : Schedule :=
  Schedule.plan deadline (List.replicate c.crew (Binary64.ofNat 0)) 0
    (sends.map (Send.duration c.delay))

def callsIn (sends : List Send) (schedule : Schedule) : Nat :=
  schedule.started.countP fun i => (sends[i]?).any Send.calls

/-- The cluster with the script of the calls that were made used up. -/
def spend (c : Cluster) (calls : Nat) : Cluster := { c with sends := c.sends.drop calls }

def poll (c : Cluster) (consumer : Consumer) (topic : String) : PollOutcome × Cluster :=
  let (disturbance, c) : Option Disturbance × Cluster :=
    match c.polls with
    | [] => (none, c)
    | next :: script => (next, { c with polls := script })
  let pass (c : Cluster) : PollOutcome × Cluster :=
    match consumer.poll c.broker topic with
    | (.ok (some message), broker) => (.received message, { c with broker := broker })
    | (.ok none, broker) => (.nothing, { c with broker := broker })
    | (.error fault, broker) => (.raised fault.message, { c with broker := broker })
  match disturbance with
  | none => pass c
  | some (.raises text) => (.raised text, c)
  | some .hangs => (.hung, c)
  | some (.confirms status) => pass (c.confirm status)

end Cluster

end Rehearsal
