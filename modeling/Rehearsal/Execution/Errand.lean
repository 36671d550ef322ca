import Rehearsal.Execution.Broker

/-!
How the client of a step is released, in whatever order its calls come to an end.

A step hands its sends to the workers, or its polls to a thread of their own, and waits until they
are over or its deadline passes; the calls go on by themselves. Where there is one task, the release
of the client hangs on its end, which may come before it is hung there and after the step is done.
A batch drops at its deadline what has not begun, looks which tasks are still running, and releases
the client itself if there are none; else it leaves that to one who waits for them. A pool that is
closed after a step drops the sends that have not begun.
-/

namespace Rehearsal

/-- The work that a step has for a client. -/
structure Errand where
  client : Nat
  /-- Whether the client was opened for the step alone. -/
  owned : Bool
  /-- Whether it is a producer, which is flushed before it is closed. -/
  sends : Bool
  /-- Whether the step drops at its deadline what has not begun. -/
  drops : Bool
  /-- How many calls each task makes at most. -/
  tasks : List Nat
  deriving DecidableEq, Repr

/-- A task that was handed out; a count is of the calls that it may still make. -/
inductive Task where
  | waiting (calls : Nat)
  | running (calls : Nat)
  | ended
  | dropped
  deriving DecidableEq, Repr

namespace Task

def isOver : Task → Bool
  | .ended => true
  | .dropped => true
  | _ => false

/-- A task that is dropped goes on if it has begun. -/
def drop : Task → Task
  | .waiting _ => .dropped
  | task => task

end Task

inductive Phase where
  | handing (rest : List Nat)
  | hooking
  | waiting
  | dropping (rest : List Nat)
  | looking (next : Nat) (found : List Nat)
  | done
  deriving DecidableEq, Repr

/-- What happens to a client; tasks are numbered in the order in which they are handed out. -/
inductive Happening where
  | began (task : Nat)
  | called (task : Nat)
  | ended (task : Nat)
  | released (event : ClientEvent)
  deriving Repr

def Happening.event? (client : Nat) : Happening → Option ClientEvent
  | .called _ => some (.used client)
  | .released event => some event
  | _ => none

/-- What a task does next, and what happens by it. -/
inductive Task.Goes (i : Nat) : Task → Task → Happening → Prop
  | begin (calls : Nat) : Goes i (.waiting calls) (.running calls) (.began i)
  | call (calls : Nat) : Goes i (.running (calls + 1)) (.running calls) (.called i)
  | finish (calls : Nat) : Goes i (.running calls) .ended (.ended i)

namespace Errand

structure State where
  tasks : List Task
  phase : Phase
  /-- Whether the release hangs on the end of the tasks. -/
  hooked : Bool
  /-- The tasks that someone waits for to release the client, if anyone does. -/
  watched : List Nat
  /-- What is still to be done of releases that were begun. -/
  left : List ClientEvent
  log : List Happening
  deriving Repr

/-- How a client is released. -/
def parting (e : Errand) : List ClientEvent :=
  if e.sends then [.flushed e.client, .closed e.client] else [.closed e.client]

def start (e : Errand) : State := ⟨[], .handing e.tasks, false, [], [], []⟩

namespace State

def isOver (s : State) (i : Nat) : Bool := (s.tasks[i]?).all Task.isOver

def isIdle (s : State) : Bool := s.tasks.all Task.isOver

def pending (s : State) : List Nat := (List.range s.tasks.length).filter fun i => !s.isOver i

def release (s : State) (e : Errand) : State := { s with left := s.left ++ e.parting }

/-- Begins the release if it hangs on the end of the tasks and that has come. -/
def unhook (s : State) (e : Errand) : State :=
  if s.hooked && s.isIdle then s.release e else s

end State

/-- What can happen next: the step goes on, a task does, or the release. -/
inductive Moves (e : Errand) : State → State → Prop
  | hand {s : State} {calls : Nat} {rest : List Nat} (h : s.phase = .handing (calls :: rest)) :
      Moves e s { s with tasks := s.tasks ++ [.waiting calls], phase := .handing rest }
  | handed {s : State} (h : s.phase = .handing []) :
      Moves e s { s with phase := if e.owned && !e.drops then .hooking else .waiting }
  | hook {s : State} (h : s.phase = .hooking) :
      Moves e s (State.unhook { s with phase := .waiting, hooked := true } e)
  | resume {s : State} (h : s.phase = .waiting) :
      Moves e s { s with phase := if e.drops then .dropping s.pending else .done }
  | drop {s : State} {rest : List Nat} {i : Nat} (h : s.phase = .dropping rest) (hi : i ∈ rest) :
      Moves e s (State.unhook
        { s with phase := .dropping (rest.erase i), tasks := s.tasks.modify i Task.drop } e)
  | dropped {s : State} (h : s.phase = .dropping []) :
      Moves e s { s with phase := if e.owned then .looking 0 [] else .done }
  | look {s : State} {i : Nat} {found : List Nat} (h : s.phase = .looking i found)
      (hi : i < s.tasks.length) :
      Moves e s { s with phase := .looking (i + 1) (if s.isOver i then found else found ++ [i]) }
  | clear {s : State} (h : s.phase = .looking s.tasks.length []) :
      Moves e s (State.release { s with phase := .done } e)
  | leave {s : State} {found : List Nat} (h : s.phase = .looking s.tasks.length found)
      (hf : found ≠ []) : Moves e s { s with phase := .done, watched := found }
  | work {s : State} {i : Nat} {task next : Task} {happening : Happening}
      (h : s.tasks[i]? = some task) (hg : task.Goes i next happening) :
      Moves e s (State.unhook
        { s with tasks := s.tasks.set i next, log := s.log ++ [happening] } e)
  /-- The pool is open as long as the step goes on; when it is closed the workers are shut down that
  sends run on. -/
  | shed {s : State} {i calls : Nat} (h : s.phase = .done) (hs : e.sends = true)
      (ht : s.tasks[i]? = some (.waiting calls)) :
      Moves e s (State.unhook { s with tasks := s.tasks.set i .dropped } e)
  | settle {s : State} (hw : s.watched ≠ []) (h : ∀ i ∈ s.watched, s.isOver i = true) :
      Moves e s (State.release { s with watched := [] } e)
  | part {s : State} {event : ClientEvent} {rest : List ClientEvent} (h : s.left = event :: rest) :
      Moves e s { s with left := rest, log := s.log ++ [.released event] }

end Errand

/-- The work that a step has for the client that it got. -/
def Step.errand? (client : Nat) : Step → Option Errand
  | .http _ => none
  | .produce step =>
    some ⟨client, !(step.tuning.isDefault && step.bootstrapServers.isNone && step.auth.isNone),
      true, false, [1]⟩
  | .batchProduce step =>
    some ⟨client, !(step.tuning.isDefault && step.bootstrapServers.isNone && step.auth.isNone),
      true, true, step.messages.map fun _ => 1⟩
  | .consume _ => some ⟨client, true, false, false, [1]⟩
  | .batchConsume step => some ⟨client, true, false, false, [step.messageCount.toNat]⟩

end Rehearsal
