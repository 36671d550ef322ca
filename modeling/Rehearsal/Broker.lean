import Rehearsal.Broker.Message
import Rehearsal.Fault
import Rehearsal.Keyed

/-!
A message broker in memory.

A topic is a fixed number of partitions, each a log that only grows; a topic that nobody made is made
on first use. Messages with a key go to the partition that the checksum of the key names, those
without to each partition in turn. A consumer group has a position in every partition of the topics
it polls, and a poll hands out the message at the first position that is not at the end.

A message whose delivery is not confirmed as persisted is not kept.
-/

/-!
The checksum by which keyed messages are spread over partitions: a cyclic redundancy check of 32
bits, computed bit by bit from the low end.
-/

namespace Rehearsal

namespace Checksum

/-- The generator with its bits reversed. -/
def generator : UInt32 := 0xEDB88320

/-- Divides one more bit out of the remainder. -/
def shift (remainder : UInt32) : UInt32 :=
  if remainder &&& 1 = 1 then (remainder >>> 1) ^^^ generator else remainder >>> 1

def shifts : Nat → UInt32 → UInt32
  | 0, remainder => remainder
  | n + 1, remainder => shifts n (shift remainder)

def addByte (remainder : UInt32) (byte : UInt8) : UInt32 :=
  shifts 8 (remainder ^^^ byte.toUInt32)

end Checksum

def checksum (bytes : List UInt8) : UInt32 :=
  bytes.foldl Checksum.addByte 0xFFFFFFFF ^^^ 0xFFFFFFFF

/-! Topics, partitions and groups. -/

inductive OffsetReset where
  | earliest
  | latest
  deriving DecidableEq, Repr, Inhabited

def OffsetReset.text : OffsetReset → String
  | .earliest => "earliest"
  | .latest => "latest"

structure Broker where
  /-- The number of partitions of a topic that is made on first use. -/
  width : Nat
  persistence : DeliveryStatus
  /-- The time of arrival of messages. -/
  now : Int
  topics : Keyed String (List (List Message))
  positions : Keyed (String × String × Nat) Nat
  /-- How many messages without a key have come. -/
  turn : Nat
  deriving Repr, Inhabited

namespace Broker

def empty (width : Nat) (persistence : DeliveryStatus) (now : Int) : Broker :=
  ⟨width, persistence, now, [], [], 0⟩

/-- Makes a topic if it is not there; a count of zero stands for the usual number of partitions. -/
def createTopic (b : Broker) (name : String) (count : Nat) : Broker :=
  match Keyed.get? b.topics name with
  | some _ => b
  | none =>
    let width := if count = 0 then b.width else count
    { b with topics := Keyed.put b.topics name (List.replicate width []) }

def partitions (b : Broker) (topic : String) : List (List Message) :=
  (Keyed.get? b.topics topic).getD []

def log (b : Broker) (topic : String) (partition : Nat) : List Message :=
  ((b.partitions topic)[partition]?).getD []

def place (b : Broker) (count : Nat) (out : Outgoing) : Except Fault Nat :=
  match out.partition with
  | some n =>
    if 0 ≤ n ∧ n < count then .ok n.toNat
    else .error (.transport (.unknownPartition n out.topic count))
  | none =>
    if count = 0 then .error (.raised .divisionByZero "integer modulo by zero")
    else
      match out.key with
      | some key => .ok ((checksum key).toNat % count)
      | none => .ok (b.turn % count)

/-- The broker after its turn has moved on, which only messages without key and partition do. -/
def takeTurn (b : Broker) (out : Outgoing) : Broker :=
  match out.partition, out.key with
  | none, none => { b with turn := b.turn + 1 }
  | _, _ => b

def keep (b : Broker) (message : Message) : Broker :=
  let logs := (b.partitions message.topic).modify message.partition (· ++ [message])
  { b with topics := Keyed.put b.topics message.topic logs }

def append (b : Broker) (out : Outgoing) : Except Fault DeliveryReport × Broker :=
  let b := b.createTopic out.topic 0
  let placed := b.place (b.partitions out.topic).length out
  let b := b.takeTurn out
  match placed with
  | .error fault => (.error fault, b)
  | .ok partition =>
    let timestamp := out.timestamp.getD b.now
    match b.persistence with
    | .persisted =>
      let offset := (b.log out.topic partition).length
      (.ok ⟨out.topic, partition, offset, timestamp, .persisted, out.key⟩,
        b.keep ⟨out.topic, partition, offset, out.key, out.value, out.headers, timestamp⟩)
    | status => (.ok ⟨out.topic, partition, -1, timestamp, status, out.key⟩, b)

def position? (b : Broker) (group topic : String) (partition : Nat) : Option Nat :=
  Keyed.get? b.positions (group, topic, partition)

def join (b : Broker) (group topic : String) (reset : OffsetReset) : Broker :=
  (List.range (b.partitions topic).length).foldl (fun b partition =>
    match b.position? group topic partition with
    | some _ => b
    | none =>
      let start :=
        match reset with
        | .latest => (b.log topic partition).length
        | .earliest => 0
      { b with positions := Keyed.put b.positions (group, topic, partition) start }) b

/-- The first partition that holds a message for a group, with the position of that message. -/
def ready? (b : Broker) (group topic : String) : Option (Nat × Nat × Message) :=
  (List.range (b.partitions topic).length).findSome? fun partition =>
    let position := (b.position? group topic partition).getD 0
    ((b.log topic partition)[position]?).map fun message => (partition, position, message)

/-- Hands a message to a group, if there is one. -/
def poll (b : Broker) (group topic : String) (reset : OffsetReset) : Option Message × Broker :=
  let b := (b.createTopic topic 0).join group topic reset
  match b.ready? group topic with
  | none => (none, b)
  | some (partition, position, message) =>
    (some message, { b with
      positions := Keyed.put b.positions (group, topic, partition) (position + 1) })

def comesBefore (a b : Message) : Bool :=
  if a.timestamp ≠ b.timestamp then a.timestamp < b.timestamp
  else if a.partition ≠ b.partition then a.partition < b.partition
  else a.offset ≤ b.offset

def messages (b : Broker) (topic : String) : List Message :=
  (b.partitions topic).flatten.mergeSort comesBefore

end Broker

end Rehearsal
