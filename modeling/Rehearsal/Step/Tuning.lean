import Rehearsal.Value.Order

/-!
How a producer batches, compresses and confirms what it sends.

A setting that is null is left to the broker client; the others are checked when they are made.
-/

namespace Rehearsal

structure ProducerTuning where
  compression : Value
  acks : Value
  batchSize : Value
  lingerMs : Value
  retries : Value
  idempotence : Value
  deriving Repr, Inhabited

namespace ProducerTuning

def plain : ProducerTuning := ⟨.null, .null, .null, .null, .null, .null⟩

def isNull : Value → Bool
  | .null => true
  | _ => false

def knowsCompression (value : Value) : Bool :=
  isNull value || value.text?.any compressionTypes.contains

def knowsAcks (value : Value) : Bool := isNull value || ackModes.contains value.display

def checkCount (field : String) (value : Value) : Except Fault Unit :=
  if isNull value then .ok ()
  else
    match value.isBelow (.int 0) with
    | .error fault => .error fault
    | .ok true => .error (.configuration (.negativeTuning field value.display))
    | .ok false => .ok ()

def check (t : ProducerTuning) : Except Fault ProducerTuning :=
  if !knowsCompression t.compression then
    .error (.configuration (.unknownCompression t.compression.shown))
  else if !knowsAcks t.acks then .error (.configuration (.unknownAcks t.acks.shown))
  else do
    checkCount "batch_size" t.batchSize
    checkCount "linger_ms" t.lingerMs
    checkCount "retries" t.retries
    return t

def fields (t : ProducerTuning) : List (String × Value) :=
  [("compression", t.compression), ("acks", t.acks), ("batch_size", t.batchSize),
    ("linger_ms", t.lingerMs), ("retries", t.retries), ("enable_idempotence", t.idempotence)]

def isDefault (t : ProducerTuning) : Bool := t.fields.all fun field => isNull field.2

def config (t : ProducerTuning) : List (String × Value) :=
  [("compression.type", t.compression),
    ("acks", if isNull t.acks then .null else .text t.acks.display),
    ("batch.size", t.batchSize), ("linger.ms", t.lingerMs), ("retries", t.retries),
    ("enable.idempotence", t.idempotence)].filter fun entry => !isNull entry.2

end ProducerTuning

end Rehearsal
