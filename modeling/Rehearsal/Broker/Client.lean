import Rehearsal.Auth.Broker
import Rehearsal.Broker

/-!
Producers and consumers of a broker. A closed one refuses to work.
-/

namespace Rehearsal

structure Producer where
  closed : Bool := false
  flushes : Nat := 0
  deriving DecidableEq, Repr, Inhabited

namespace Producer

def send (p : Producer) (b : Broker) (out : Outgoing) : Except Fault DeliveryReport × Broker :=
  if p.closed then (.error (.transport .producerClosed), b) else b.append out

def flush (p : Producer) : Producer := { p with flushes := p.flushes + 1 }

def close (p : Producer) : Producer := { p with closed := true }

end Producer

structure Consumer where
  group : String
  reset : String
  closed : Bool := false
  deriving DecidableEq, Repr, Inhabited

namespace Consumer

/-- An entry of a configuration as text, if it counts as present. -/
def entry (config : ClientConfig) (name default : String) : String :=
  match config.get? name with
  | some value => if value.truthy then value.display else default
  | none => default

def ofConfig (config : ClientConfig) : Consumer :=
  { group := entry config "group.id" "assured-consumer"
    reset := entry config "auto.offset.reset" "earliest" }

def start (c : Consumer) : OffsetReset := if c.reset = "latest" then .latest else .earliest

def poll (c : Consumer) (b : Broker) (topic : String) : Except Fault (Option Message) × Broker :=
  if c.closed then (.error (.transport .consumerClosed), b)
  else
    let (message, b) := b.poll c.group topic c.start
    (.ok message, b)

def close (c : Consumer) : Consumer := { c with closed := true }

end Consumer

end Rehearsal
