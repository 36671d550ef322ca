import Mathlib.Data.Nat.Basic
import Rehearsal.Proofs.Broker.Run

/-! What a group is handed. From its first poll of a topic on, a group has a position in every
partition, and between any two moments it is handed exactly the messages between its two positions.
So over a run it is handed each message from its start on once, in the order of the offsets. -/

namespace Rehearsal.Broker

variable {b : Broker} {group topic : String} {partition : Nat} {reset : OffsetReset}

theorem extract_self {α : Type} (log : List α) (n : Nat) : log.extract n n = [] := by
  rw [List.extract_eq_take_drop, Nat.sub_self, List.take_zero]

theorem extract_succ {α : Type} {log : List α} {n : Nat} {x : α} (h : log[n]? = some x) :
    log.extract n (n + 1) = [x] := by
  obtain ⟨hn, rfl⟩ := List.getElem?_eq_some_iff.mp h
  rw [List.extract_eq_take_drop, Nat.add_sub_cancel_left, List.drop_eq_getElem_cons hn]
  rfl

theorem extract_append {α : Type} {log more : List α} (h : log <+: more) {start middle stop : Nat}
    (hsm : start ≤ middle) (hm : middle ≤ log.length) (hms : middle ≤ stop) :
    log.extract start middle ++ more.extract middle stop = more.extract start stop := by
  obtain ⟨rest, rfl⟩ := h
  have hlog : log.extract start middle = (log ++ rest).extract start middle := by
    rw [List.extract_eq_take_drop, List.extract_eq_take_drop,
      List.drop_append_of_le_length (Nat.le_trans hsm hm),
      List.take_append_of_le_length (by rw [List.length_drop]; omega)]
  have hdrop : (log ++ rest).drop middle = ((log ++ rest).drop start).drop (middle - start) := by
    rw [List.drop_drop]
    congr 1
    omega
  rw [hlog]
  simp only [List.extract_eq_take_drop]
  rw [hdrop, ← List.take_add]
  congr 1
  omega

/-- A group that has joined a topic is somewhere in every partition, and nowhere past the end. -/
structure Joined (b : Broker) (group topic : String) (at' : Nat → Nat) : Prop where
  made : b.HasTopic topic
  position : ∀ p, b.position? group topic p =
    if p < (b.partitions topic).length then some (at' p) else none
  bound : ∀ p, at' p ≤ (b.log topic p).length

/-- A group that has not joined a topic has no position in it. -/
def Apart (b : Broker) (group topic : String) : Prop := ∀ p, b.position? group topic p = none

theorem Joined.of_grows {at' : Nat → Nat} {c : Broker} (h : b.Joined group topic at')
    (hg : b.Grows c) (hp : ∀ p, c.position? group topic p = b.position? group topic p) :
    c.Joined group topic at' := by
  refine ⟨hg.made h.made, fun p => ?_, fun p => ?_⟩
  · rw [hp, h.position, hg.widths h.made]
  · exact Nat.le_trans (h.bound p) (hg.logs topic p).length_le

theorem startIn_le (b : Broker) (topic : String) (partition : Nat) (reset : OffsetReset) :
    b.startIn topic partition reset ≤ (b.log topic partition).length := by
  cases reset
  · exact Nat.zero_le _
  · exact Nat.le_refl _

/-- A group that polls a topic for the first time starts where its reset says. -/
theorem Apart.joined (h : b.Apart group topic) (reset : OffsetReset) :
    (b.joined group topic reset).Joined group topic fun p => b.startIn topic p reset := by
  refine ⟨hasTopic_joined b group topic reset, fun p => ?_, fun p => ?_⟩
  · rw [position?_joined, h p]
    simp
  · rw [log_joined]
    exact startIn_le b topic p reset

/-- A group that has joined is moved nowhere by joining again, whatever its reset. -/
theorem Joined.joined {at' : Nat → Nat} (h : b.Joined group topic at') (reset : OffsetReset) :
    (b.joined group topic reset).Joined group topic at' := by
  refine h.of_grows (grows_joined b group topic reset) fun p => ?_
  have hw := (grows_joined b group topic reset).widths h.made
  rw [position?_joined, h.position, hw]
  simp only [true_and]
  split <;> rfl

theorem handedBy_poll (consumer : Consumer) (found : Option Message) :
    handedBy group topic partition (.poll consumer topic, .polled (.ok found)) =
      if consumer.group = group then found.filter (·.partition = partition) else none := by
  cases found with
  | none => simp [handedBy]
  | some message =>
    by_cases hg : consumer.group = group <;> by_cases hp : message.partition = partition <;>
      simp [handedBy, hg, hp, Option.filter]

/-- A poll by a group that is past joining: it is handed what lies between its positions. -/
theorem Joined.poll {at' : Nat → Nat}
    (h : (b.joined group topic reset).Joined group topic at') (hb : b.Placed) :
    ∃ next : Nat → Nat, (b.poll group topic reset).2.Joined group topic next ∧
      ∀ p, at' p ≤ next p ∧
        ((b.poll group topic reset).1.filter (·.partition = p)).toList =
          (b.log topic p).extract (at' p) (next p) := by
  rcases poll_cases b group topic reset with ⟨hpoll, -⟩ | ⟨q, n, message, hq, hn, hm, hpoll⟩
  · refine ⟨at', by rw [hpoll]; exact h, fun p => ⟨le_rfl, ?_⟩⟩
    rw [hpoll, extract_self]
    rfl
  · have hat : n = at' q := by rw [hn, h.position, if_pos hq, Option.getD_some]
    subst hat
    rw [log_joined] at hm
    have hplace := hb topic q _ message hm
    have hlt := (List.getElem?_eq_some_iff.mp hm).1
    -- the position in `q` moves on by one, and the others stay
    refine ⟨fun p => if p = q then at' q + 1 else at' p, ⟨?_, fun p => ?_, fun p => ?_⟩,
      fun p => ⟨?_, ?_⟩⟩
    · rw [hpoll]
      exact h.made
    · rw [hpoll, position?_pass, h.position]
      change _ = if p < ((b.joined group topic reset).partitions topic).length then _ else _
      by_cases hpq : p = q
      · subst hpq
        rw [if_pos ⟨rfl, rfl, rfl⟩, if_pos hq, if_pos rfl]
      · rw [if_neg fun hk => hpq hk.2.2, if_neg hpq]
    · rw [log_poll]
      split
      · subst p
        omega
      · have hle := h.bound p
        rwa [log_joined] at hle
    · dsimp only
      split
      · subst p
        omega
      · exact le_rfl
    · rw [hpoll]
      dsimp only
      by_cases hpq : p = q
      · subst hpq
        rw [if_pos rfl, extract_succ hm]
        simp [Option.filter, hplace.2.1]
      · rw [if_neg hpq, extract_self]
        simp [Option.filter, hplace.2.1, Ne.symm hpq]

theorem apply_apart {op : Operation} (h : op.polls? group topic = none) (p : Nat) :
    (b.apply op).2.position? group topic p = b.position? group topic p ∧
      handedBy group topic p (op, (b.apply op).1) = none := by
  cases op with
  | poll consumer t =>
    cases hc : consumer.closed with
    | true =>
      refine ⟨by simp [apply, Consumer.poll, hc], ?_⟩
      simp [apply, Consumer.poll, hc, handedBy]
    | false =>
      have hne : ¬ (consumer.group = group ∧ t = topic) := by
        rintro ⟨rfl, rfl⟩
        simp [Operation.polls?, hc] at h
      have hjoin : (b.joined consumer.group t consumer.start).position? group topic p =
          b.position? group topic p := by
        rw [position?_joined, if_neg fun hk => hne ⟨hk.1.symm, hk.2.1.symm⟩]
      rw [apply_poll_open b t hc]
      refine ⟨?_, ?_⟩
      · rcases poll_cases b consumer.group t consumer.start with ⟨hp, -⟩ | ⟨q, n, m, -, -, -, hp⟩
        · rw [hp]
          exact hjoin
        · rw [hp, position?_pass, if_neg fun hk => hne ⟨hk.1.symm, hk.2.1.symm⟩]
          exact hjoin
      · cases (b.poll consumer.group t consumer.start).1 with
        | none => rfl
        | some message => exact if_neg fun hk => hne ⟨hk.1, hk.2.1⟩
  | createTopic name count =>
    exact ⟨by simp only [apply, position?, positions_createTopic], rfl⟩
  | send producer out =>
    rcases apply_positions b (.send producer out) with hp | ⟨_, _, hop, -⟩
    · exact ⟨by rw [position?, hp, position?], rfl⟩
    · cases hop
  | confirm status => exact ⟨rfl, rfl⟩
  | elapse now => exact ⟨rfl, rfl⟩

theorem polls?_some {op : Operation} (h : op.polls? group topic = some reset) :
    ∃ consumer, op = .poll consumer topic ∧ consumer.group = group ∧ consumer.start = reset ∧
      consumer.closed = false := by
  cases op with
  | poll consumer t =>
    simp only [Operation.polls?] at h
    split at h
    · rename_i hc
      obtain ⟨hg, rfl, hopen⟩ := hc
      exact ⟨consumer, rfl, hg, by simpa using h, hopen⟩
    · cases h
  | _ => cases h

theorem Joined.apply {at' : Nat → Nat} (h : b.Joined group topic at') (hb : b.Placed)
    (op : Operation) :
    ∃ next : Nat → Nat, (b.apply op).2.Joined group topic next ∧
      ∀ p, at' p ≤ next p ∧ (handedBy group topic p (op, (b.apply op).1)).toList =
        ((b.apply op).2.log topic p).extract (at' p) (next p) := by
  cases hpolls : op.polls? group topic with
  | none =>
    have happ := fun p => apply_apart (b := b) hpolls p
    refine ⟨at', h.of_grows (grows_apply b op) fun p => (happ p).1, fun p => ⟨le_rfl, ?_⟩⟩
    rw [(happ p).2, extract_self]
    rfl
  | some reset =>
    obtain ⟨consumer, rfl, rfl, rfl, hopen⟩ := polls?_some hpolls
    obtain ⟨next, hnext, hgot⟩ := (h.joined consumer.start).poll hb
    rw [apply_poll_open b topic hopen]
    refine ⟨next, hnext, fun p => ⟨(hgot p).1, ?_⟩⟩
    rw [handedBy_poll, if_pos rfl, (hgot p).2, log_poll]

theorem handed_cons (group topic : String) (p : Nat) (b : Broker) (op : Operation)
    (rest : List Operation) :
    handed group topic p (b.run (op :: rest)).1 =
      (handedBy group topic p (op, (b.apply op).1)).toList ++
        handed group topic p ((b.apply op).2.run rest).1 := by
  simp only [handed, run, List.filterMap_cons]
  cases handedBy group topic p (op, (b.apply op).1) <;> rfl

theorem Joined.run {at' : Nat → Nat} (h : b.Joined group topic at') (hb : b.Placed)
    (ops : List Operation) :
    ∃ next : Nat → Nat, (b.run ops).2.Joined group topic next ∧
      ∀ p, at' p ≤ next p ∧ handed group topic p (b.run ops).1 =
        ((b.run ops).2.log topic p).extract (at' p) (next p) := by
  -- the positions an operation ends at are those the rest of the run starts from
  induction ops generalizing b at' with
  | nil => exact ⟨at', h, fun p => ⟨le_rfl, (extract_self _ _).symm⟩⟩
  | cons op rest ih =>
    obtain ⟨middle, hmiddle, hfirst⟩ := h.apply hb op
    obtain ⟨next, hnext, hlater⟩ := ih hmiddle (hb.apply op)
    refine ⟨next, hnext, fun p => ⟨Nat.le_trans (hfirst p).1 (hlater p).1, ?_⟩⟩
    rw [handed_cons, (hfirst p).2, (hlater p).2]
    exact extract_append ((grows_run (b.apply op).2 rest).logs topic p) (hfirst p).1
      (hmiddle.bound p) (hlater p).1

theorem Apart.run (h : b.Apart group topic) (hb : b.Placed) (ops : List Operation) :
    ((b.run ops).2.Apart group topic ∧ ∀ p, b.startOf? group topic p ops = none ∧
      handed group topic p (b.run ops).1 = []) ∨
    ∃ first next : Nat → Nat, (b.run ops).2.Joined group topic next ∧
      ∀ p, b.startOf? group topic p ops = some (first p) ∧ first p ≤ next p ∧
        handed group topic p (b.run ops).1 =
          ((b.run ops).2.log topic p).extract (first p) (next p) := by
  -- up to the first poll the group stays apart; that poll joins it, and `Joined.run` takes the rest
  induction ops generalizing b with
  | nil => exact .inl ⟨h, fun _ => ⟨rfl, rfl⟩⟩
  | cons op rest ih =>
    cases hpolls : op.polls? group topic with
    | none =>
      have happ := fun p => apply_apart (b := b) hpolls p
      have hrest : (b.apply op).2.Apart group topic := fun p => (happ p).1.trans (h p)
      simp only [handed_cons, (happ _).2, Option.toList_none, List.nil_append, startOf?, hpolls]
      exact ih hrest (hb.apply op)
    | some reset =>
      obtain ⟨consumer, rfl, rfl, rfl, hopen⟩ := polls?_some hpolls
      obtain ⟨middle, hmiddle, hfirst⟩ := (h.joined consumer.start).poll hb
      have hb' : (b.poll consumer.group topic consumer.start).2.Placed :=
        hb.of_log (log_poll b consumer.group topic consumer.start)
      obtain ⟨next, hnext, hlater⟩ := hmiddle.run hb' rest
      refine .inr ⟨fun p => b.startIn topic p consumer.start, next, ?_, fun p => ⟨?_, ?_, ?_⟩⟩
      · simp only [Broker.run]
        rw [apply_poll_open b topic hopen]
        exact hnext
      · simp only [startOf?, hpolls]
      · exact Nat.le_trans (hfirst p).1 (hlater p).1
      · rw [handed_cons, Broker.run, apply_poll_open b topic hopen, handedBy_poll, if_pos rfl,
          (hfirst p).2, (hlater p).2, ← log_poll b consumer.group topic consumer.start]
        exact extract_append ((grows_run _ rest).logs topic p) (hfirst p).1 (hmiddle.bound p)
          (hlater p).1

theorem apart_empty (width : Nat) (persistence : DeliveryStatus) (now : Int)
    (group topic : String) : (empty width persistence now).Apart group topic := fun _ => rfl

theorem Placed.offsets (h : b.Placed) {start stop : Nat}
    (hstop : stop ≤ (b.log topic partition).length) :
    ((b.log topic partition).extract start stop).map (·.offset) =
      List.range' start (stop - start) := by
  apply List.ext_getElem?
  intro i
  rw [List.extract_eq_take_drop, List.getElem?_map, List.getElem?_take, List.getElem?_drop]
  by_cases hi : i < stop - start
  · have hlt : start + i < (b.log topic partition).length := by omega
    rw [if_pos hi, List.getElem?_range' hi, List.getElem?_eq_getElem hlt, Option.map_some,
      (h topic partition _ _ (List.getElem?_eq_getElem hlt)).2.2, Nat.one_mul]
  · rw [if_neg hi, List.getElem?_eq_none (by simpa using hi)]
    rfl

/-- A poll that brings nothing leaves nothing behind. -/
theorem poll_none {consumer : Consumer}
    (h : (b.apply (.poll consumer topic)).1 = .polled (.ok none)) {at' : Nat → Nat}
    (hj : (b.joined consumer.group topic consumer.start).Joined consumer.group topic at') {p : Nat}
    (hp : p < ((b.apply (.poll consumer topic)).2.partitions topic).length) :
    (b.apply (.poll consumer topic)).2.position? consumer.group topic p =
      some ((b.apply (.poll consumer topic)).2.log topic p).length := by
  cases hc : consumer.closed with
  | true => simp [Broker.apply, Consumer.poll, hc] at h
  | false =>
    rw [apply_poll_open b topic hc] at h hp ⊢
    rcases poll_cases b consumer.group topic consumer.start with ⟨hpoll, hall⟩ |
      ⟨_, _, _, -, -, -, hpoll⟩
    · simp only [hpoll] at hp ⊢
      have hend := hall p hp
      rw [hj.position, if_pos hp, Option.getD_some] at hend
      rw [hj.position, if_pos hp, Nat.le_antisymm (hj.bound p) hend]
    · rw [hpoll] at h
      cases h

/-- Whatever clients do, and in whatever order: a message says where it is and stays there; a group
never goes back; it is handed, one after another, just the messages between where its first poll put
it and where it is now; and a poll that brings nothing finds it at the end of every partition. -/
theorem groups_receive_once_in_order (width : Nat) (persistence : DeliveryStatus) (now : Int)
    (ops : List Operation) :
    let start := empty width persistence now
    let b := (start.run ops).2
    (∀ topic partition (i : Nat) message, (b.log topic partition)[i]? = some message →
      message.topic = topic ∧ message.partition = partition ∧ message.offset = i) ∧
    (∀ before after topic, ops = before ++ after → (start.run before).2.HasTopic topic →
      (b.partitions topic).length = ((start.run before).2.partitions topic).length ∧
      ∀ partition, (start.run before).2.log topic partition <+: b.log topic partition) ∧
    (∀ before after group topic partition n, ops = before ++ after →
      (start.run before).2.position? group topic partition = some n →
      ∃ m, b.position? group topic partition = some m ∧ n ≤ m) ∧
    (∀ group topic partition, partition < (b.partitions topic).length →
      match start.startOf? group topic partition ops with
      | none =>
        b.position? group topic partition = none ∧
          handed group topic partition (start.run ops).1 = []
      | some first => ∃ committed,
        b.position? group topic partition = some committed ∧ first ≤ committed ∧
          committed ≤ (b.log topic partition).length ∧
          handed group topic partition (start.run ops).1 =
            (b.log topic partition).extract first committed ∧
          (handed group topic partition (start.run ops).1).map (·.offset) =
            List.range' first (committed - first)) ∧
    (∀ consumer topic, (b.apply (.poll consumer topic)).1 = .polled (.ok none) →
      ∀ partition < ((b.apply (.poll consumer topic)).2.partitions topic).length,
        (b.apply (.poll consumer topic)).2.position? consumer.group topic partition =
          some ((b.apply (.poll consumer topic)).2.log topic partition).length) := by
  intro start b
  have hstart : start.Placed := placed_empty width persistence now
  have hb : b.Placed := hstart.run ops
  have hrun := fun group topic ops =>
    (apart_empty width persistence now group topic).run hstart ops
  refine ⟨hb, ?_, ?_, ?_, ?_⟩
  · rintro before after topic rfl hmade
    have hb : b = ((start.run before).2.run after).2 := by simp only [b, run_append]
    have hgrows := grows_run (start.run before).2 after
    rw [hb]
    exact ⟨hgrows.widths hmade, fun p => hgrows.logs topic p⟩
  · rintro before after group topic p n rfl hn
    have hb : b = ((start.run before).2.run after).2 := by simp only [b, run_append]
    rcases hrun group topic before with ⟨hapart, -⟩ | ⟨_, middle, hmiddle, -⟩
    · rw [hapart p] at hn
      cases hn
    · obtain ⟨next, hnext, hlater⟩ := hmiddle.run (hstart.run before) after
      rw [hmiddle.position] at hn
      split at hn
      · rename_i hp
        obtain rfl : middle p = n := by simpa using hn
        have hwidth := (grows_run (start.run before).2 after).widths hmiddle.made
        exact ⟨next p, by rw [hb, hnext.position, hwidth, if_pos hp], (hlater p).1⟩
      · cases hn
  · intro group topic p hp
    rcases hrun group topic ops with ⟨hapart, hnone⟩ | ⟨first, next, hjoined, hsome⟩
    · rw [(hnone p).1]
      exact ⟨hapart p, (hnone p).2⟩
    · obtain ⟨hfirst, hle, hgot⟩ := hsome p
      rw [hfirst]
      refine ⟨next p, ?_, hle, hjoined.bound p, hgot, ?_⟩
      · rw [hjoined.position, if_pos hp]
      · rw [hgot]
        exact hb.offsets (hjoined.bound p)
  · intro consumer topic hnone p hp
    rcases hrun consumer.group topic ops with ⟨hapart, -⟩ | ⟨_, next, hjoined, -⟩
    · exact poll_none hnone (hapart.joined consumer.start) hp
    · exact poll_none hnone (hjoined.joined consumer.start) hp

/-- Two consumers of one group, of which the first starts at the end and the second asks for the
beginning. -/
example :
    let first : Consumer := { group := "g", reset := "latest" }
    let second : Consumer := { group := "g", reset := "earliest" }
    let out : Outgoing := ⟨"t", none, none, [], none, none⟩
    let events := ((empty 1 .persisted 0).run [.send {} out, .poll first "t", .send {} out,
      .send {} out, .poll second "t", .poll first "t", .poll second "t"]).1
    (handed "g" "t" 0 events).map (·.offset) = [1, 2] := by decide

end Rehearsal.Broker
