import Rehearsal.Broker.Client
import Rehearsal.Proofs.Broker.Position

/-! Runs of a broker. Any number of clients call it in any order, one call at a time; between calls
time passes, and what the broker confirms may change. A run is kept as the list of the operations
with their answers, beside the broker they leave. -/

namespace Rehearsal.Broker

variable {b : Broker}

inductive Operation where
  | createTopic (name : String) (count : Nat)
  | send (producer : Producer) (out : Outgoing)
  | poll (consumer : Consumer) (topic : String)
  | confirm (status : DeliveryStatus)
  | elapse (now : Int)
  deriving DecidableEq, Repr

inductive Answer where
  | done
  | sent (outcome : Except Fault DeliveryReport)
  | polled (outcome : Except Fault (Option Message))

/-- An operation with what it was answered. -/
abbrev Event := Operation × Answer

def apply (b : Broker) : Operation → Answer × Broker
  | .createTopic name count => (.done, b.createTopic name count)
  | .send producer out =>
    let outcome := producer.send b out
    (.sent outcome.1, outcome.2)
  | .poll consumer topic =>
    let outcome := consumer.poll b topic
    (.polled outcome.1, outcome.2)
  | .confirm status => (.done, { b with persistence := status })
  | .elapse now => (.done, { b with now := now })

def run (b : Broker) : List Operation → List Event × Broker
  | [] => ([], b)
  | op :: rest =>
    let next := b.apply op
    let later := next.2.run rest
    ((op, next.1) :: later.1, later.2)

/-- How a group joins a topic if an operation is a poll of it by an open consumer of the group. -/
def Operation.polls? (group topic : String) : Operation → Option OffsetReset
  | .poll consumer t =>
    if consumer.group = group ∧ t = topic ∧ consumer.closed = false then some consumer.start
    else none
  | _ => none

def handedBy (group topic : String) (partition : Nat) : Event → Option Message
  | (.poll consumer t, .polled (.ok (some message))) =>
    if consumer.group = group ∧ t = topic ∧ message.partition = partition then some message
    else none
  | _ => none

/-- The messages handed to the consumers of a group from a partition, in the order of the calls. -/
def handed (group topic : String) (partition : Nat) (events : List Event) : List Message :=
  events.filterMap (handedBy group topic partition)

/-- Where a group starts in a partition: where its first poll of the topic puts it. -/
def startOf? (b : Broker) (group topic : String) (partition : Nat) : List Operation → Option Nat
  | [] => none
  | op :: rest =>
    match op.polls? group topic with
    | some reset => some (b.startIn topic partition reset)
    | none => (b.apply op).2.startOf? group topic partition rest

theorem run_append (b : Broker) (before after : List Operation) :
    b.run (before ++ after) =
      ((b.run before).1 ++ ((b.run before).2.run after).1, ((b.run before).2.run after).2) := by
  induction before generalizing b with
  | nil => rfl
  | cons op rest ih =>
    simp only [List.cons_append, run]
    rw [ih]

theorem apply_poll_open {consumer : Consumer} (b : Broker) (topic : String)
    (h : consumer.closed = false) :
    b.apply (.poll consumer topic) =
      (.polled (.ok (b.poll consumer.group topic consumer.start).1),
        (b.poll consumer.group topic consumer.start).2) := by
  simp [apply, Consumer.poll, h]

/-- Only a poll by an open consumer moves positions. -/
theorem apply_positions (b : Broker) (op : Operation) :
    (b.apply op).2.positions = b.positions ∨
      ∃ consumer topic, op = .poll consumer topic ∧ consumer.closed = false := by
  cases op with
  | createTopic name count => exact .inl (positions_createTopic b name count)
  | send producer out =>
    refine .inl ?_
    simp only [apply, Producer.send]
    split
    · rfl
    · exact positions_append b out
  | poll consumer topic =>
    cases hc : consumer.closed with
    | false => exact .inr ⟨consumer, topic, rfl, hc⟩
    | true => exact .inl (by simp [apply, Consumer.poll, hc])
  | confirm status => exact .inl rfl
  | elapse now => exact .inl rfl

theorem grows_poll (b : Broker) (group topic : String) (reset : OffsetReset) :
    b.Grows (b.poll group topic reset).2 := by
  have hj := grows_joined b group topic reset
  rcases poll_cases b group topic reset with ⟨h, -⟩ | ⟨p, q, m, -, -, -, h⟩
  · rw [h]
    exact hj
  · rw [h]
    exact hj.trans (.of_topics rfl)

theorem log_poll (b : Broker) (group topic : String) (reset : OffsetReset) (t : String) (p : Nat) :
    (b.poll group topic reset).2.log t p = b.log t p := by
  rw [← log_joined b group topic reset t p]
  rcases poll_cases b group topic reset with ⟨h, -⟩ | ⟨q, r, m, -, -, -, h⟩
  · rw [h]
  · rw [h]
    exact log_of_topics rfl t p

theorem grows_apply (b : Broker) (op : Operation) : b.Grows (b.apply op).2 := by
  cases op with
  | createTopic name count => exact grows_createTopic b name count
  | send producer out =>
    simp only [apply, Producer.send]
    split
    · exact .refl b
    · exact grows_append b out
  | poll consumer topic =>
    cases hc : consumer.closed with
    | true => simpa [apply, Consumer.poll, hc] using Grows.refl b
    | false =>
      rw [apply_poll_open b topic hc]
      exact grows_poll b consumer.group topic consumer.start
  | confirm status => exact .of_topics rfl
  | elapse now => exact .of_topics rfl

theorem Placed.apply (h : b.Placed) (op : Operation) : (b.apply op).2.Placed := by
  cases op with
  | createTopic name count => exact h.of_log (log_createTopic b name count)
  | send producer out =>
    simp only [Broker.apply, Producer.send]
    split
    · exact h
    · exact h.append out
  | poll consumer topic =>
    cases hc : consumer.closed with
    | true => simpa [Broker.apply, Consumer.poll, hc] using h
    | false =>
      rw [apply_poll_open b topic hc]
      exact h.of_log (log_poll b consumer.group topic consumer.start)
  | confirm status => exact h.of_log (log_of_topics rfl)
  | elapse now => exact h.of_log (log_of_topics rfl)

theorem grows_run (b : Broker) (ops : List Operation) : b.Grows (b.run ops).2 := by
  induction ops generalizing b with
  | nil => exact .refl b
  | cons op rest ih => exact (grows_apply b op).trans (ih (b.apply op).2)

theorem Placed.run (h : b.Placed) (ops : List Operation) : (b.run ops).2.Placed := by
  induction ops generalizing b with
  | nil => exact h
  | cons op rest ih => exact ih (h.apply op)

theorem placed_empty (width : Nat) (persistence : DeliveryStatus) (now : Int) :
    (empty width persistence now).Placed := by
  intro t p i m hm
  simp [empty, log, partitions, Keyed.get?] at hm

end Rehearsal.Broker
