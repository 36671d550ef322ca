import Rehearsal.Proofs.Broker.Log

/-! Positions of groups. Joining a topic gives a group a position in each partition and moves none
it has; a poll moves the position of one partition past the message it hands out, or hands out
nothing because every position is at the end of its log. -/

namespace Rehearsal.Broker

variable {b c : Broker} {group topic : String} {reset : OffsetReset}

/-- The position that a group gets in a partition where it has none. -/
def startIn (b : Broker) (topic : String) (partition : Nat) : OffsetReset → Nat
  | .earliest => 0
  | .latest => (b.log topic partition).length

/-- Gives a group a position in one partition, if it has none. -/
def joinIn (group topic : String) (reset : OffsetReset) (b : Broker) (partition : Nat) : Broker :=
  match b.position? group topic partition with
  | some _ => b
  | none =>
    let start := b.startIn topic partition reset
    { b with positions := Keyed.put b.positions (group, topic, partition) start }

theorem join_eq_foldl (b : Broker) (group topic : String) (reset : OffsetReset) :
    b.join group topic reset =
      (List.range (b.partitions topic).length).foldl (joinIn group topic reset) b := by
  simp only [join]
  congr 1
  funext c p
  simp only [joinIn]
  cases c.position? group topic p <;> cases reset <;> rfl

theorem topics_joinIn (b : Broker) (group topic : String) (reset : OffsetReset) (partition : Nat) :
    (joinIn group topic reset b partition).topics = b.topics := by
  simp only [joinIn]
  split <;> rfl

theorem position?_joinIn (b : Broker) (group topic : String) (reset : OffsetReset)
    (partition : Nat) (key : String × String × Nat) :
    (joinIn group topic reset b partition).position? key.1 key.2.1 key.2.2 =
      if key = (group, topic, partition) then
        some ((b.position? group topic partition).getD (b.startIn topic partition reset))
      else b.position? key.1 key.2.1 key.2.2 := by
  simp only [joinIn]
  cases hp : b.position? group topic partition with
  | some n =>
    by_cases hk : key = (group, topic, partition)
    · subst key
      simpa using hp
    · rw [if_neg hk]
  | none => simp only [position?, Keyed.get?_put, Option.getD_none]

theorem topics_foldl_joinIn (parts : List Nat) (b : Broker) :
    (parts.foldl (joinIn group topic reset) b).topics = b.topics := by
  induction parts generalizing b with
  | nil => rfl
  | cons p rest ih => rw [List.foldl_cons, ih, topics_joinIn]

theorem position?_foldl_joinIn (parts : List Nat) (b : Broker) (key : String × String × Nat) :
    (parts.foldl (joinIn group topic reset) b).position? key.1 key.2.1 key.2.2 =
      if key.1 = group ∧ key.2.1 = topic ∧ key.2.2 ∈ parts then
        some ((b.position? key.1 key.2.1 key.2.2).getD (b.startIn topic key.2.2 reset))
      else b.position? key.1 key.2.1 key.2.2 := by
  induction parts generalizing b with
  | nil => simp
  | cons p rest ih =>
    have hstart : ∀ q, (joinIn group topic reset b p).startIn topic q reset =
        b.startIn topic q reset := by
      intro q
      cases reset
      · rfl
      · simp only [startIn, log_of_topics (topics_joinIn b group topic .latest p)]
    obtain ⟨g, t, q⟩ := key
    rw [List.foldl_cons, ih, position?_joinIn, hstart]
    by_cases hk : (g, t, q) = (group, topic, p)
    · obtain ⟨rfl, rfl, rfl⟩ : g = group ∧ t = topic ∧ q = p := by simpa using hk
      simp
    · simp only [if_neg hk, List.mem_cons]
      by_cases hr : g = group ∧ t = topic ∧ q ∈ rest
      · simp [hr]
      · have hall : ¬ (g = group ∧ t = topic ∧ (q = p ∨ q ∈ rest)) := by
          rintro ⟨rfl, rfl, rfl | hq⟩
          · exact hk rfl
          · exact hr ⟨rfl, rfl, hq⟩
        rw [if_neg hr, if_neg hall]

theorem topics_join (b : Broker) (group topic : String) (reset : OffsetReset) :
    (b.join group topic reset).topics = b.topics := by
  rw [join_eq_foldl, topics_foldl_joinIn]

/-- Joining gives a position where there is none, and touches nothing else. -/
theorem position?_join (b : Broker) (group topic : String) (reset : OffsetReset)
    (g t : String) (p : Nat) :
    (b.join group topic reset).position? g t p =
      if g = group ∧ t = topic ∧ p < (b.partitions topic).length then
        some ((b.position? g t p).getD (b.startIn topic p reset))
      else b.position? g t p := by
  have h : (b.join group topic reset).position? g t p = _ :=
    join_eq_foldl b group topic reset ▸ position?_foldl_joinIn _ b (g, t, p)
  simpa only [List.mem_range] using h

/-- The broker on which a poll looks for a message. -/
def joined (b : Broker) (group topic : String) (reset : OffsetReset) : Broker :=
  (b.createTopic topic 0).join group topic reset

theorem grows_joined (b : Broker) (group topic : String) (reset : OffsetReset) :
    b.Grows (b.joined group topic reset) :=
  (grows_createTopic b topic 0).trans (.of_topics (topics_join _ group topic reset))

theorem log_joined (b : Broker) (group topic : String) (reset : OffsetReset) (t : String)
    (p : Nat) : (b.joined group topic reset).log t p = b.log t p := by
  rw [joined, log_of_topics (topics_join _ group topic reset), log_createTopic]

theorem hasTopic_joined (b : Broker) (group topic : String) (reset : OffsetReset) :
    (b.joined group topic reset).HasTopic topic := by
  rw [HasTopic, joined, topics_join]
  exact hasTopic_createTopic b topic 0

theorem position?_joined (b : Broker) (group topic : String) (reset : OffsetReset)
    (g t : String) (p : Nat) :
    (b.joined group topic reset).position? g t p =
      if g = group ∧ t = topic ∧ p < ((b.joined group topic reset).partitions topic).length then
        some ((b.position? g t p).getD (b.startIn topic p reset))
      else b.position? g t p := by
  have hparts : (b.joined group topic reset).partitions topic =
      (b.createTopic topic 0).partitions topic := by
    simp only [joined, partitions, topics_join]
  have hstart : (b.createTopic topic 0).startIn topic p reset = b.startIn topic p reset := by
    cases reset
    · rfl
    · simp only [startIn, log_createTopic]
  rw [hparts, joined, position?_join, hstart]
  simp only [position?, positions_createTopic]

/-- Moves the position of a group in a partition past the message it is at. -/
def pass (b : Broker) (group topic : String) (partition position : Nat) : Broker :=
  { b with positions := Keyed.put b.positions (group, topic, partition) (position + 1) }

theorem position?_pass (b : Broker) (group topic : String) (partition position : Nat)
    (g t : String) (p : Nat) :
    (b.pass group topic partition position).position? g t p =
      if g = group ∧ t = topic ∧ p = partition then some (position + 1)
      else b.position? g t p := by
  simp only [pass, position?, Keyed.get?_put, Prod.mk.injEq]

theorem ready?_some {partition position : Nat} {message : Message}
    (h : b.ready? group topic = some (partition, position, message)) :
    partition < (b.partitions topic).length ∧
      position = (b.position? group topic partition).getD 0 ∧
      (b.log topic partition)[position]? = some message := by
  obtain ⟨p, hp, hf⟩ := List.exists_of_findSome?_eq_some h
  simp only [Option.map_eq_some_iff, Prod.mk.injEq] at hf
  obtain ⟨m, hm, rfl, rfl, rfl⟩ := hf
  exact ⟨List.mem_range.mp hp, rfl, hm⟩

theorem ready?_none (h : b.ready? group topic = none) {p : Nat}
    (hp : p < (b.partitions topic).length) :
    (b.log topic p).length ≤ (b.position? group topic p).getD 0 := by
  have hf := List.findSome?_eq_none_iff.mp h p (List.mem_range.mpr hp)
  simpa using hf

/-- All that a poll can do. -/
theorem poll_cases (b : Broker) (group topic : String) (reset : OffsetReset) :
    let j := b.joined group topic reset
    (b.poll group topic reset = (none, j) ∧ ∀ p < (j.partitions topic).length,
        (j.log topic p).length ≤ (j.position? group topic p).getD 0) ∨
      ∃ partition position message, partition < (j.partitions topic).length ∧
        position = (j.position? group topic partition).getD 0 ∧
        (j.log topic partition)[position]? = some message ∧
        b.poll group topic reset = (some message, j.pass group topic partition position) := by
  intro j
  cases hr : j.ready? group topic with
  | none =>
    refine .inl ⟨?_, fun p hp => ready?_none hr hp⟩
    simp only [poll]
    rw [show ((b.createTopic topic 0).join group topic reset).ready? group topic = none from hr]
    rfl
  | some found =>
    obtain ⟨partition, position, message⟩ := found
    obtain ⟨hp, hq, hm⟩ := ready?_some hr
    refine .inr ⟨partition, position, message, hp, hq, hm, ?_⟩
    simp only [poll]
    rw [show ((b.createTopic topic 0).join group topic reset).ready? group topic =
      some (partition, position, message) from hr]
    rfl

end Rehearsal.Broker
