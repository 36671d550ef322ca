import Mathlib.Data.List.Sort
import Rehearsal.Proofs.Broker.Delivery
import Rehearsal.Proofs.Broker.Stored

/-! Messages with one key. The broker keeps them in one partition, since a topic never gains or loses
partitions, and from one partition a group is handed messages in the order in which they came. -/

namespace Rehearsal.Broker

variable {b : Broker} {group topic : String} {key : List UInt8}

/-- The partition of a topic that messages with a key go to. -/
def home (b : Broker) (topic : String) (key : List UInt8) : Nat :=
  (checksum key).toNat % (b.partitions topic).length

/-- A message where a report says that it is kept. -/
def keptMessage (out : Outgoing) (report : DeliveryReport) : Message :=
  ⟨report.topic, report.partition, report.offset.toNat, report.key, out.value, out.headers,
    report.timestamp⟩

/-- The message that an event keeps under a topic and a key, where the broker chose the partition. -/
def keyedBy (topic : String) (key : List UInt8) : Event → Option Message
  | (.send _ out, .sent (.ok report)) =>
    if out.topic = topic ∧ out.key = some key ∧ out.partition = none ∧
        report.status = .persisted then some (keptMessage out report)
    else none
  | _ => none

def keyed (topic : String) (key : List UInt8) (events : List Event) : List Message :=
  events.filterMap (keyedBy topic key)

/-- The message that an event hands to a group, from whichever partition of a topic. -/
def receivedBy (group topic : String) : Event → Option Message
  | (.poll consumer t, .polled (.ok (some message))) =>
    if consumer.group = group ∧ t = topic then some message else none
  | _ => none

/-- The messages of a topic that a group received, in the order of its calls. -/
def received (group topic : String) (events : List Event) : List Message :=
  events.filterMap (receivedBy group topic)

theorem handedBy_eq (group topic : String) (p : Nat) (event : Event) :
    handedBy group topic p event = (receivedBy group topic event).filter (·.partition = p) := by
  unfold receivedBy
  split
  · rename_i consumer t message
    simp only [handedBy]
    by_cases hg : consumer.group = group ∧ t = topic
    · by_cases hp : message.partition = p <;> simp [hg, hp, Option.filter]
    · rw [if_neg fun h => hg ⟨h.1, h.2.1⟩, if_neg hg]
      rfl
  · rename_i hother
    rw [handedBy]
    · rfl
    · exact hother

theorem handed_eq_filter (group topic : String) (p : Nat) (events : List Event) :
    handed group topic p events = (received group topic events).filter (·.partition = p) := by
  rw [handed, received, List.filter_filterMap]
  congr 1
  funext event
  exact handedBy_eq group topic p event

/-! A message that is kept without a partition of its own. -/

theorem log_keep_self {message : Message}
    (h : message.partition < (b.partitions message.topic).length) :
    (b.keep message).log message.topic message.partition =
      b.log message.topic message.partition ++ [message] := by
  simp only [log, partitions_keep, if_true]
  rw [List.getElem?_modify_eq, List.getElem?_eq_getElem h]
  rfl

theorem append_keyed {out : Outgoing} {report : DeliveryReport}
    (h : (b.append out).1 = .ok report) (hstatus : report.status = .persisted)
    (hkey : out.key = some key) (hfree : out.partition = none) :
    let after := (b.append out).2
    let message := keptMessage out report
    after.HasTopic out.topic ∧ message.partition = after.home out.topic key ∧
      after.log out.topic message.partition =
        b.log out.topic message.partition ++ [message] := by
  intro after message
  -- the topic is there once `made` is, and keeping a message adds no partition to it
  let made := (b.createTopic out.topic 0).takeTurn out
  have hmade : made.HasTopic out.topic := by
    rw [HasTopic, topics_takeTurn]
    exact hasTopic_createTopic b out.topic 0
  have hparts : made.partitions out.topic = (b.createTopic out.topic 0).partitions out.topic := by
    simp only [made, partitions, topics_takeTurn]
  have hlog : ∀ p, made.log out.topic p = b.log out.topic p := fun p => by
    rw [log_of_topics (topics_takeTurn _ out), log_createTopic]
  cases hplace : (b.createTopic out.topic 0).place
      ((b.createTopic out.topic 0).partitions out.topic).length out with
  | error fault => simp [append, hplace] at h
  | ok partition =>
    have hhome : partition = (checksum key).toNat % (made.partitions out.topic).length := by
      rw [hparts]
      simp only [place, hfree, hkey] at hplace
      split at hplace
      · cases hplace
      · exact (Except.ok.inj hplace).symm
    have hlt : partition < (made.partitions out.topic).length := by
      rw [hparts]
      exact place_lt hplace
    obtain ⟨hreport, hafter⟩ : message = ⟨out.topic, partition,
        (made.log out.topic partition).length, out.key, out.value, out.headers,
        out.timestamp.getD made.now⟩ ∧ after = made.keep message := by
      simp only [append, hplace] at h
      simp only [message, after, append, hplace]
      split at h <;> cases h
      · exact ⟨rfl, rfl⟩
      · rename_i hnot
        exact absurd hstatus hnot
    have hkept := grows_keep made message
    refine ⟨?_, ?_, ?_⟩
    · rw [hafter]
      exact hkept.made hmade
    · rw [hafter, home, hkept.widths hmade, ← hhome, hreport]
    · rw [hafter, ← hlog, hreport]
      exact log_keep_self hlt

theorem keyedBy_apply {op : Operation} {message : Message}
    (h : keyedBy topic key (op, (b.apply op).1) = some message) :
    (b.apply op).2.HasTopic topic ∧ message.partition = (b.apply op).2.home topic key ∧
      (b.apply op).2.log topic message.partition =
        b.log topic message.partition ++ [message] := by
  unfold keyedBy at h
  split at h
  · rename_i producer out report hevent
    obtain ⟨rfl, hanswer⟩ := Prod.mk.inj hevent
    split at h
    · rename_i hkeyed
      obtain ⟨rfl, hkey, hfree, hstatus⟩ := hkeyed
      cases h
      simp only [apply, Producer.send] at hanswer ⊢
      split at hanswer
      · cases hanswer
      · rename_i hopen
        rw [if_neg hopen]
        exact append_keyed (Answer.sent.inj hanswer) hstatus hkey hfree
    · cases h
  · cases h

theorem keyed_sublist (b : Broker) (ops : List Operation) :
    let p := (b.run ops).2.home topic key
    (keyed topic key (b.run ops).1).Sublist
      (((b.run ops).2.log topic p).drop (b.log topic p).length) := by
  induction ops generalizing b with
  | nil => exact List.nil_sublist _
  | cons op rest ih =>
    have hlater := ih (b.apply op).2
    have hgrown := grows_apply b op
    have hgrows := grows_run (b.apply op).2 rest
    simp only [keyed, run, List.filterMap_cons]
    generalize hp : ((b.apply op).2.run rest).2.home topic key = p at hlater ⊢
    split
    · exact hlater.trans (List.drop_sublist_drop_left _ (hgrown.logs topic p).length_le)
    · rename_i message hkept
      obtain ⟨hmade, hhome, hadded⟩ := keyedBy_apply hkept
      obtain rfl : message.partition = p := by
        rw [hhome, ← hp, home, home, hgrows.widths hmade]
      -- the message stands where the log ended before, and what comes later stands behind it
      obtain ⟨more, hmore⟩ := hgrows.logs topic message.partition
      rw [hadded, List.append_assoc] at hmore
      dsimp only at hlater
      rw [hadded, ← hmore, ← List.append_assoc, List.drop_left] at hlater
      rw [← hmore, List.drop_left]
      exact hlater.cons_cons message

/-! Two lists of messages of one partition agree in their order if each goes by the offsets. -/

theorem pairwise_offset {messages : List Message} {start n : Nat}
    (h : messages.map (·.offset) = List.range' start n) :
    messages.Pairwise (·.offset < ·.offset) := by
  rw [← List.pairwise_map (f := fun m : Message => m.offset), h]
  exact List.pairwise_lt_range'

theorem Placed.pairwise_log (h : b.Placed) (topic : String) (p : Nat) :
    (b.log topic p).Pairwise (·.offset < ·.offset) := by
  have hoffsets : ((b.log topic p).extract 0 (b.log topic p).length).map (·.offset) =
      List.range' 0 ((b.log topic p).length - 0) := h.offsets (Nat.le_refl _)
  rw [List.extract_eq_take_drop, List.drop_zero, Nat.sub_zero, List.take_length] at hoffsets
  exact pairwise_offset hoffsets

theorem pairwise_handed (width : Nat) (persistence : DeliveryStatus) (now : Int)
    (ops : List Operation) (group topic : String) (p : Nat) :
    (handed group topic p ((empty width persistence now).run ops).1).Pairwise
      (·.offset < ·.offset) := by
  have hstart := placed_empty width persistence now
  rcases (apart_empty width persistence now group topic).run hstart ops with
    ⟨-, hnone⟩ | ⟨first, next, -, hsome⟩
  · rw [(hnone p).2]
    exact List.Pairwise.nil
  · rw [(hsome p).2.2, List.extract_eq_take_drop]
    have hlog := (hstart.run ops).pairwise_log topic p
    exact (hlog.sublist (List.drop_sublist _ _)).sublist (List.take_sublist _ _)

/-- A list that goes by the offsets is part of any other that does and has all its messages. -/
theorem sublist_of_offsets {few many : List Message} (hsub : few ⊆ many)
    (hfew : few.Pairwise (·.offset < ·.offset)) (hmany : many.Pairwise (·.offset < ·.offset)) :
    few.Sublist many := by
  have hnodup : few.Nodup := by
    apply List.Pairwise.imp _ hfew
    rintro m n hlt rfl
    exact Nat.lt_irrefl _ hlt
  have hanti : Std.Antisymm fun m n : Message => m.offset < n.offset :=
    ⟨fun _ _ hmn hnm => absurd hmn (Nat.lt_asymm hnm)⟩
  exact List.sublist_of_subperm_of_pairwise (List.subperm_of_subset hnodup hsub) hfew hmany

/-- Whatever clients do, and in whatever order: the messages that are kept under a key, with the
broker choosing the partition, stand in one partition where their reports say, and a group receives
those of them that it receives in the order in which they were produced, none of them twice. -/
theorem keyed_in_order (width : Nat) (persistence : DeliveryStatus) (now : Int)
    (ops : List Operation) (topic : String) (key : List UInt8) :
    let start := empty width persistence now
    let events := (start.run ops).1
    let b := (start.run ops).2
    (∀ message ∈ keyed topic key events, message.partition = b.home topic key ∧
      (b.log topic message.partition)[message.offset]? = some message) ∧
    ∀ group, ((received group topic events).filter (· ∈ keyed topic key events)).Sublist
      (keyed topic key events) := by
  intro start events b
  have hb : b.Placed := (placed_empty width persistence now).run ops
  have hkept : (keyed topic key events).Sublist (b.log topic (b.home topic key)) :=
    (keyed_sublist start ops).trans (List.drop_sublist _ _)
  have hplaces : ∀ message ∈ keyed topic key events, message.partition = b.home topic key ∧
      (b.log topic message.partition)[message.offset]? = some message := by
    intro message hm
    obtain ⟨i, hi⟩ := List.getElem?_of_mem (hkept.subset hm)
    obtain ⟨-, hp, ho⟩ := hb topic (b.home topic key) i message hi
    refine ⟨hp, ?_⟩
    rw [hp, ho]
    exact hi
  refine ⟨hplaces, fun group => ?_⟩
  -- both go by the offsets of the one partition that the key leads to
  apply sublist_of_offsets
  · intro message hm
    simpa using (List.mem_filter.mp hm).2
  · have horder := pairwise_handed width persistence now ops group topic (b.home topic key)
    rw [handed_eq_filter] at horder
    apply List.Pairwise.sublist _ horder
    apply List.monotone_filter_right
    intro message hm
    have hpart := (hplaces message (by simpa using hm)).1
    simpa using hpart
  · exact (hb.pairwise_log topic (b.home topic key)).sublist hkept

end Rehearsal.Broker
