import Mathlib.Data.List.Perm.Basic
import Rehearsal.Proofs.Broker.Delivery
import Rehearsal.Proofs.Broker.Stored

/-! What a group has yet to receive. In every partition of a topic that is what lies from its
position on; a group that has not joined the topic, and starts at the beginning, has yet to receive
everything. A poll hands out one of these messages, the first in its partition, as long as there are
any. -/

namespace Rehearsal

theorem flatMap_perm_cons {α β : Type} {items : List α} (hd : items.Nodup) {item : α}
    (hi : item ∈ items) {f g : α → List β} {b : β} (hitem : f item = b :: g item)
    (hothers : ∀ a ∈ items, a ≠ item → f a = g a) :
    (items.flatMap f).Perm (b :: items.flatMap g) := by
  obtain ⟨before, after, rfl⟩ := List.append_of_mem hi
  have hd := List.perm_middle.nodup_iff.mp hd
  have hnot : ∀ a ∈ before ++ after, a ≠ item := by
    rintro a ha rfl
    exact (List.nodup_cons.mp hd).1 ha
  have hbefore : before.flatMap f = before.flatMap g := List.flatMap_congr fun a ha =>
    hothers a (by simp [ha]) (hnot a (by simp [ha]))
  have hafter : after.flatMap f = after.flatMap g := List.flatMap_congr fun a ha =>
    hothers a (by simp [ha]) (hnot a (by simp [ha]))
  simp only [List.flatMap_append, List.flatMap_cons, hitem, hbefore, hafter]
  exact List.perm_middle

namespace Broker

variable {b c d : Broker} {group topic : String}

def pending (b : Broker) (group topic : String) (partition : Nat) : List Message :=
  (b.log topic partition).drop ((b.position? group topic partition).getD 0)

/-- The messages of a topic that a group has yet to receive, partition by partition. -/
def unread (b : Broker) (group topic : String) : List Message :=
  (List.range (b.partitions topic).length).flatMap (b.pending group topic)

theorem Apart.pending (h : b.Apart group topic) (p : Nat) :
    b.pending group topic p = b.log topic p := by
  rw [Broker.pending, h p]
  rfl

theorem Apart.unread (h : b.Apart group topic) :
    (b.unread group topic).map Message.cargo = b.cargo topic := by
  have hlog : ∀ p, b.pending group topic p = ((b.partitions topic)[p]?).elim [] id := by
    intro p
    rw [h.pending, log]
    cases (b.partitions topic)[p]? <;> rfl
  rw [Broker.unread, List.flatMap_congr fun p _ => hlog p, flatMap_range, cargo, List.flatMap_id]

theorem log_beyond {p : Nat} (h : (b.partitions topic).length ≤ p) : b.log topic p = [] := by
  rw [log, List.getElem?_eq_none h]
  rfl

theorem pending_joined (b : Broker) (group topic : String) (p : Nat) :
    (b.joined group topic .earliest).pending group topic p = b.pending group topic p := by
  rw [pending, pending, log_joined, position?_joined]
  split
  · rfl
  · rfl

theorem unread_joined (b : Broker) (group topic : String) :
    (b.joined group topic .earliest).unread group topic = b.unread group topic := by
  rw [unread, unread, List.flatMap_congr fun p _ => b.pending_joined group topic p]
  by_cases hmade : b.HasTopic topic
  · rw [(grows_joined b group topic .earliest).widths hmade]
  · -- a topic that is made by the poll has nothing in it
    have hnone : b.partitions topic = [] := by
      have hget : Keyed.get? b.topics topic = none := by simpa [HasTopic] using hmade
      simp [partitions, hget]
    have hpending : ∀ p, b.pending group topic p = [] := by
      intro p
      rw [pending, log_beyond (by simp [hnone]), List.drop_nil]
    rw [List.flatMap_eq_nil_iff.mpr fun p _ => hpending p,
      List.flatMap_eq_nil_iff.mpr fun p _ => hpending p]

/-- What a group is handed of a topic while nothing comes in: of each partition the messages it has
yet to receive, from the first on. -/
structure Hands (b : Broker) (group topic : String) (messages : List Message) (c : Broker) :
    Prop where
  persistence : c.persistence = b.persistence
  logs : ∀ t p, c.log t p = b.log t p
  pending : ∀ p, b.pending group topic p =
    messages.filter (fun m => m.partition = p) ++ c.pending group topic p
  unread : (b.unread group topic).Perm (messages ++ c.unread group topic)

theorem Hands.refl (b : Broker) (group topic : String) : b.Hands group topic [] b :=
  ⟨rfl, fun _ _ => rfl, fun _ => rfl, .refl _⟩

theorem Hands.trans {first later : List Message} (h : b.Hands group topic first c)
    (k : c.Hands group topic later d) : b.Hands group topic (first ++ later) d where
  persistence := k.persistence.trans h.persistence
  logs := fun t p => (k.logs t p).trans (h.logs t p)
  pending := fun p => by
    rw [h.pending, k.pending, List.filter_append, List.append_assoc]
  unread := by
    rw [List.append_assoc]
    exact h.unread.trans (k.unread.append_left first)

theorem persistence_joined (b : Broker) (group topic : String) (reset : OffsetReset) :
    (b.joined group topic reset).persistence = b.persistence := by
  have hmade : (b.createTopic topic 0).persistence = b.persistence := by
    simp only [createTopic]
    split <;> rfl
  rw [joined, join_eq_foldl, ← hmade]
  generalize b.createTopic topic 0 = c
  generalize List.range _ = parts
  induction parts generalizing c with
  | nil => rfl
  | cons p rest ih =>
    rw [List.foldl_cons, ih]
    simp only [joinIn]
    split <;> rfl

theorem hands_joined (b : Broker) (group topic : String) :
    b.Hands group topic [] (b.joined group topic .earliest) where
  persistence := b.persistence_joined group topic .earliest
  logs := log_joined b group topic .earliest
  pending := fun p => (b.pending_joined group topic p).symm
  unread := .of_eq (b.unread_joined group topic).symm

theorem hands_pass (hb : b.Placed) {partition position : Nat} {message : Message}
    (hp : partition < (b.partitions topic).length)
    (hposition : position = (b.position? group topic partition).getD 0)
    (hmessage : (b.log topic partition)[position]? = some message) :
    b.Hands group topic [message] (b.pass group topic partition position) := by
  have hplace := (hb topic partition position message hmessage).2.1
  have hown : b.pending group topic partition =
      message :: (b.pass group topic partition position).pending group topic partition := by
    obtain ⟨hlt, hat⟩ := List.getElem?_eq_some_iff.mp hmessage
    rw [pending, pending, position?_pass, if_pos ⟨rfl, rfl, rfl⟩, ← hposition,
      List.drop_eq_getElem_cons hlt, hat]
    rfl
  have hother : ∀ p, p ≠ partition → b.pending group topic p =
      (b.pass group topic partition position).pending group topic p := by
    intro p hne
    rw [pending, pending, position?_pass, if_neg fun h => hne h.2.2]
    rfl
  refine ⟨rfl, fun _ _ => rfl, fun p => ?_, ?_⟩
  · by_cases hpartition : p = partition
    · subst hpartition
      simp [hown, hplace]
    · simp [hother p hpartition, hplace, Ne.symm hpartition]
  · exact flatMap_perm_cons List.nodup_range (List.mem_range.mpr hp) hown
      fun p _ hne => hother p hne

/-- A poll brings a message as long as the group has one to receive. -/
theorem poll_hands (hb : b.Placed) (group topic : String) :
    (b.poll group topic .earliest).1 = none ∧ b.unread group topic = [] ∧
        b.Hands group topic [] (b.poll group topic .earliest).2 ∨
      ∃ message, (b.poll group topic .earliest).1 = some message ∧
        b.Hands group topic [message] (b.poll group topic .earliest).2 := by
  have hjoined := b.hands_joined group topic
  rcases poll_cases b group topic .earliest with ⟨hpoll, hend⟩ |
    ⟨partition, position, message, hp, hposition, hmessage, hpoll⟩
  · rw [hpoll]
    refine .inl ⟨rfl, ?_, hjoined⟩
    rw [← unread_joined, unread, List.flatMap_eq_nil_iff]
    exact fun p hp => List.drop_eq_nil_of_le (hend p (List.mem_range.mp hp))
  · rw [hpoll]
    have hplaced : (b.joined group topic .earliest).Placed := hb.of_log hjoined.logs
    exact .inr ⟨message, rfl, hjoined.trans (hands_pass hplaced hp hposition hmessage)⟩

end Broker

end Rehearsal
