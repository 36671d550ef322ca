import Rehearsal.Proofs.Broker.Log

/-! What is kept under a topic, whatever the partitions. A message that is taken and confirmed as
persisted is added to what is kept under its topic, and nothing else is ever added. -/

namespace Rehearsal

/-- What a message carries, wherever it is kept. -/
structure Cargo where
  key : Option (List UInt8)
  value : Option (List UInt8)
  headers : MessageHeaders
  deriving DecidableEq, Repr

def Outgoing.cargo (out : Outgoing) : Cargo := ⟨out.key, out.value, out.headers⟩

def Message.cargo (message : Message) : Cargo := ⟨message.key, message.value, message.headers⟩

def DeliveryReport.keeps (report : DeliveryReport) (out : Outgoing) (topic : String) : List Cargo :=
  if report.status = .persisted ∧ out.topic = topic then [out.cargo] else []

theorem flatMap_range {α β : Type} (items : List α) (f : α → List β) :
    ((List.range items.length).flatMap fun i => (items[i]?).elim [] f) = items.flatMap f := by
  induction items with
  | nil => rfl
  | cons item rest ih =>
    rw [List.length_cons, List.range_succ_eq_map, List.flatMap_cons, List.flatMap_map,
      List.flatMap_cons, ← ih]
    rfl

namespace Broker

variable {b : Broker} {topic : String}

/-- The cargo of the messages under a topic, partition by partition. -/
def cargo (b : Broker) (topic : String) : List Cargo :=
  (b.partitions topic).flatten.map Message.cargo

theorem messages_perm (b : Broker) (topic : String) :
    (b.messages topic).Perm (b.partitions topic).flatten := List.mergeSort_perm _ _

theorem cargo_messages (b : Broker) (topic : String) :
    ((b.messages topic).map Message.cargo).Perm (b.cargo topic) :=
  (b.messages_perm topic).map _

theorem cargo_of_topics {c : Broker} (h : c.topics = b.topics) (topic : String) :
    c.cargo topic = b.cargo topic := by
  simp only [cargo, partitions, h]

theorem cargo_createTopic (b : Broker) (name : String) (count : Nat) (topic : String) :
    (b.createTopic name count).cargo topic = b.cargo topic := by
  by_cases h : b.HasTopic topic ∨ topic ≠ name
  · simp only [cargo, partitions_createTopic b name count topic h]
  · obtain ⟨hnot, rfl⟩ : ¬ b.HasTopic topic ∧ topic = name := by simpa [not_or] using h
    have hn : Keyed.get? b.topics topic = none := by simpa [HasTopic] using hnot
    simp [cargo, partitions, createTopic, hn, Keyed.get?_put_self]

theorem cargo_takeTurn (b : Broker) (out : Outgoing) (topic : String) :
    (b.takeTurn out).cargo topic = b.cargo topic := cargo_of_topics (topics_takeTurn b out) topic

theorem flatten_modify {α : Type} (logs : List (List α)) (n : Nat) (hn : n < logs.length) (a : α) :
    (logs.modify n (· ++ [a])).flatten.Perm (logs.flatten ++ [a]) := by
  induction logs generalizing n with
  | nil => cases hn
  | cons log rest ih =>
    cases n with
    | zero =>
      simp only [List.modify_zero_cons, List.flatten_cons, List.append_assoc]
      exact List.perm_append_comm.append_left log
    | succ n =>
      simp only [List.modify_succ_cons, List.flatten_cons, List.append_assoc]
      exact (ih n (by simpa using hn)).append_left log

theorem cargo_keep (b : Broker) {message : Message}
    (h : message.partition < (b.partitions message.topic).length) (topic : String) :
    ((b.keep message).cargo topic).Perm
      (b.cargo topic ++ if message.topic = topic then [message.cargo] else []) := by
  by_cases ht : message.topic = topic
  · subst ht
    simp only [cargo, partitions_keep, if_true]
    simpa using (flatten_modify _ _ h message).map Message.cargo
  · simp [cargo, partitions_keep, Ne.symm ht, ht]

theorem place_lt {count : Nat} {out : Outgoing} {partition : Nat}
    (h : b.place count out = .ok partition) : partition < count := by
  simp only [place] at h
  split at h
  · split at h
    · cases h
      omega
    · cases h
  · split at h
    · cases h
    · split at h <;> cases h <;> exact Nat.mod_lt _ (by omega)

/-- All that taking a message can do: refuse it, which keeps nothing, or report what became of it,
which is what the broker confirms at the time. -/
theorem append_cases (b : Broker) (out : Outgoing) :
    (b.append out).2.persistence = b.persistence ∧
    ((∃ fault, (b.append out).1 = .error fault ∧
      ∀ topic, (b.append out).2.cargo topic = b.cargo topic) ∨
    (∃ report, (b.append out).1 = .ok report ∧ report.status = b.persistence ∧
      ∀ topic, ((b.append out).2.cargo topic).Perm (b.cargo topic ++ report.keeps out topic))) := by
  have hmade : ∀ topic, ((b.createTopic out.topic 0).takeTurn out).cargo topic = b.cargo topic :=
    fun topic => by rw [cargo_takeTurn, cargo_createTopic]
  have hpersist : ((b.createTopic out.topic 0).takeTurn out).persistence = b.persistence := by
    simp only [takeTurn, createTopic]
    split <;> split <;> rfl
  simp only [append]
  split
  · rename_i fault _
    exact ⟨hpersist, .inl ⟨fault, rfl, hmade⟩⟩
  · rename_i partition hplace
    have hlt : partition <
        (((b.createTopic out.topic 0).takeTurn out).partitions out.topic).length := by
      simpa only [partitions, topics_takeTurn] using place_lt hplace
    split
    · rename_i hstatus
      refine ⟨hpersist, .inr ⟨_, rfl, (hpersist ▸ hstatus).symm, fun topic => ?_⟩⟩
      rw [← hmade topic]
      simpa [DeliveryReport.keeps, Outgoing.cargo, Message.cargo] using cargo_keep _ hlt topic
    · rename_i hstatus
      refine ⟨hpersist, .inr ⟨_, rfl, hpersist, fun topic => ?_⟩⟩
      rw [DeliveryReport.keeps, if_neg fun h => hstatus h.1, hmade, List.append_nil]

end Broker

end Rehearsal
