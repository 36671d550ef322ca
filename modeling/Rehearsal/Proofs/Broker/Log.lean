import Rehearsal.Broker

/-! What the operations of a broker do to its logs and to the positions of its groups. A broker
grows when every topic keeps its partitions and every log keeps its messages; all that is ever added
to a log is one message at its end, with its place written on it. -/

namespace Rehearsal.Broker

variable {b c d : Broker}

def HasTopic (b : Broker) (topic : String) : Prop := (Keyed.get? b.topics topic).isSome

/-- Every message says where it is. -/
def Placed (b : Broker) : Prop :=
  ∀ topic partition (i : Nat) message, (b.log topic partition)[i]? = some message →
    message.topic = topic ∧ message.partition = partition ∧ message.offset = i

/-- What is never undone: topics stay with their partitions, and logs only get longer. -/
structure Grows (b c : Broker) : Prop where
  made : ∀ {topic}, b.HasTopic topic → c.HasTopic topic
  widths : ∀ {topic}, b.HasTopic topic →
    (c.partitions topic).length = (b.partitions topic).length
  logs : ∀ topic partition, b.log topic partition <+: c.log topic partition

theorem Grows.refl (b : Broker) : b.Grows b :=
  ⟨id, fun _ => rfl, fun _ _ => List.prefix_rfl⟩

theorem Grows.trans (h : b.Grows c) (k : c.Grows d) : b.Grows d :=
  ⟨fun ht => k.made (h.made ht), fun ht => (k.widths (h.made ht)).trans (h.widths ht),
    fun t p => (h.logs t p).trans (k.logs t p)⟩

theorem log_of_topics (h : c.topics = b.topics) (topic : String) (partition : Nat) :
    c.log topic partition = b.log topic partition := by
  simp only [log, partitions, h]

theorem Grows.of_topics (h : c.topics = b.topics) : b.Grows c := by
  refine ⟨fun ht => ?_, fun _ => by simp only [partitions, h], fun t p => ?_⟩
  · rw [HasTopic, h]
    exact ht
  · exact ⟨[], by rw [List.append_nil, log_of_topics h]⟩

theorem Placed.of_log (hb : b.Placed)
    (h : ∀ topic partition, c.log topic partition = b.log topic partition) : c.Placed := by
  intro t p i m hm
  rw [h] at hm
  exact hb t p i m hm

/-! Making a topic. -/

theorem partitions_createTopic (b : Broker) (name : String) (count : Nat) (topic : String)
    (h : b.HasTopic topic ∨ topic ≠ name) :
    (b.createTopic name count).partitions topic = b.partitions topic := by
  simp only [createTopic]
  cases hn : Keyed.get? b.topics name with
  | some logs => rfl
  | none =>
    have hne : topic ≠ name := by
      rcases h with h | h
      · rintro rfl
        simp [HasTopic, hn] at h
      · exact h
    simp only [partitions, Keyed.get?_put_ne _ _ hne]

theorem log_createTopic (b : Broker) (name : String) (count : Nat) (topic : String)
    (partition : Nat) : (b.createTopic name count).log topic partition = b.log topic partition := by
  by_cases h : b.HasTopic topic ∨ topic ≠ name
  · simp only [log, partitions_createTopic b name count topic h]
  · obtain ⟨hnot, rfl⟩ : ¬ b.HasTopic topic ∧ topic = name := by simpa [not_or] using h
    have hn : Keyed.get? b.topics topic = none := by simpa [HasTopic] using hnot
    simp only [log, partitions, createTopic, hn, Keyed.get?_put_self, Option.getD_some,
      Option.getD_none, List.getElem?_nil, List.getElem?_replicate]
    split <;> split <;> rfl

theorem hasTopic_createTopic (b : Broker) (name : String) (count : Nat) :
    (b.createTopic name count).HasTopic name := by
  simp only [createTopic]
  cases hn : Keyed.get? b.topics name with
  | some logs => simp [HasTopic, hn]
  | none => simp [HasTopic, Keyed.get?_put_self]

theorem HasTopic.createTopic {topic : String} (h : b.HasTopic topic) (name : String)
    (count : Nat) : (b.createTopic name count).HasTopic topic := by
  by_cases hne : topic = name
  · exact hne ▸ hasTopic_createTopic b name count
  · simp only [Broker.createTopic]
    cases Keyed.get? b.topics name with
    | some logs => exact h
    | none => simpa only [HasTopic, Keyed.get?_put_ne _ _ hne] using h

theorem grows_createTopic (b : Broker) (name : String) (count : Nat) :
    b.Grows (b.createTopic name count) :=
  ⟨fun h => h.createTopic name count,
    fun h => by rw [partitions_createTopic b name count _ (.inl h)],
    fun t p => ⟨[], by rw [List.append_nil, log_createTopic]⟩⟩

theorem positions_createTopic (b : Broker) (name : String) (count : Nat) :
    (b.createTopic name count).positions = b.positions := by
  simp only [createTopic]
  cases Keyed.get? b.topics name <;> rfl

/-! Keeping a message. -/

theorem topics_takeTurn (b : Broker) (out : Outgoing) : (b.takeTurn out).topics = b.topics := by
  simp only [takeTurn]
  split <;> rfl

theorem positions_takeTurn (b : Broker) (out : Outgoing) :
    (b.takeTurn out).positions = b.positions := by
  simp only [takeTurn]
  split <;> rfl

theorem partitions_keep (b : Broker) (message : Message) (topic : String) :
    (b.keep message).partitions topic =
      if topic = message.topic then
        (b.partitions topic).modify message.partition (· ++ [message])
      else b.partitions topic := by
  simp only [keep, partitions, Keyed.get?_put]
  split
  · subst topic
    rfl
  · rfl

theorem log_keep (b : Broker) (message : Message) (topic : String) (partition : Nat) :
    (b.keep message).log topic partition = b.log topic partition ∨
      topic = message.topic ∧ partition = message.partition ∧
        (b.keep message).log topic partition = b.log topic partition ++ [message] := by
  simp only [log, partitions_keep]
  by_cases ht : topic = message.topic
  · by_cases hp : message.partition = partition
    · cases hl : (b.partitions topic)[partition]? with
      | none => simp [ht, hp, ht ▸ hl]
      | some log => simp [ht, hp, ht ▸ hl]
    · simp [ht, hp]
  · simp [ht]

theorem grows_keep (b : Broker) (message : Message) : b.Grows (b.keep message) where
  made := by
    intro t ht
    simp only [HasTopic, keep, Keyed.get?_put]
    split
    · rfl
    · exact ht
  widths := by
    intro t _
    rw [partitions_keep]
    split
    · rw [List.length_modify]
    · rfl
  logs := by
    intro t p
    rcases log_keep b message t p with h | ⟨-, -, h⟩
    · exact ⟨[], by rw [List.append_nil, h]⟩
    · rw [h]
      exact List.prefix_append _ _

theorem Placed.keep (h : b.Placed) {message : Message}
    (hm : message.offset = (b.log message.topic message.partition).length) :
    (b.keep message).Placed := by
  intro t p i m hi
  rcases log_keep b message t p with hl | ⟨rfl, rfl, hl⟩
  · rw [hl] at hi
    exact h t p i m hi
  · rw [hl, List.getElem?_append] at hi
    split at hi
    · exact h _ _ i m hi
    · obtain ⟨hlen, rfl⟩ : i = (b.log message.topic message.partition).length ∧ message = m := by
        rw [List.getElem?_singleton] at hi
        split at hi
        · exact ⟨by omega, by simpa using hi⟩
        · cases hi
      exact ⟨rfl, rfl, by rw [hm, hlen]⟩

/-! Taking a message: it is kept at the end of a log, or no log changes. -/

theorem append_kept (b : Broker) (out : Outgoing) :
    let made := (b.createTopic out.topic 0).takeTurn out
    (b.append out).2 = made ∨
      ∃ message, message.offset = (made.log message.topic message.partition).length ∧
        (b.append out).2 = made.keep message := by
  intro made
  simp only [append]
  split
  · exact .inl rfl
  · split
    · refine .inr ⟨_, ?_, rfl⟩
      simp only [made]
    · exact .inl rfl

theorem grows_append (b : Broker) (out : Outgoing) : b.Grows (b.append out).2 := by
  have hmade : b.Grows ((b.createTopic out.topic 0).takeTurn out) :=
    (grows_createTopic b out.topic 0).trans (.of_topics (topics_takeTurn _ out))
  rcases append_kept b out with h | ⟨message, -, h⟩
  · rw [h]
    exact hmade
  · rw [h]
    exact hmade.trans (grows_keep _ message)

theorem Placed.append (h : b.Placed) (out : Outgoing) : (b.append out).2.Placed := by
  have hmade : ((b.createTopic out.topic 0).takeTurn out).Placed := by
    refine h.of_log fun t p => ?_
    rw [log_of_topics (topics_takeTurn _ out), log_createTopic]
  rcases append_kept b out with hb | ⟨message, hm, hb⟩
  · rw [hb]
    exact hmade
  · rw [hb]
    exact hmade.keep hm

theorem positions_append (b : Broker) (out : Outgoing) :
    (b.append out).2.positions = b.positions := by
  have hmade : ((b.createTopic out.topic 0).takeTurn out).positions = b.positions := by
    rw [positions_takeTurn, positions_createTopic]
  rcases append_kept b out with h | ⟨message, -, h⟩
  · rw [h, hmade]
  · rw [h]
    exact hmade

end Rehearsal.Broker
