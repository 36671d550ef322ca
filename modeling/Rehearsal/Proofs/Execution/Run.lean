import Rehearsal.Execution
import Rehearsal.Proofs.Broker.Sends
import Rehearsal.Proofs.Fallible

/-! What running a step does to the world. Whether a pool is open, whether it has a broker, and the
clock are left alone by every step. A step that raises leaves the cluster as it was; one that
returns has run its sends by a schedule, or polled for its group, or has nothing to do with the
cluster. -/

namespace Rehearsal

structure World.Kept (w w' : World) : Prop where
  now : w'.now = w.now
  isClosed : w'.pool.isClosed = w.pool.isClosed
  hasBroker : w'.pool.hasBroker = w.pool.hasBroker

theorem World.Kept.refl (w : World) : w.Kept w := ⟨rfl, rfl, rfl⟩

theorem World.Kept.trans {w w' w'' : World} (h : w.Kept w') (k : w'.Kept w'') : w.Kept w'' :=
  ⟨k.now.trans h.now, k.isClosed.trans h.isClosed, k.hasBroker.trans h.hasBroker⟩

/-! Opening a client neither closes a pool nor gives it a broker. -/

namespace Pool

theorem openClient_kept (p : Pool) (role : ClientRole) (failure : Option Fault) :
    (p.openClient role failure).2.isClosed = p.isClosed ∧
      (p.openClient role failure).2.hasBroker = p.hasBroker := by
  cases failure <;> exact ⟨rfl, rfl⟩

theorem startLoop_kept (p : Pool) :
    p.startLoop.isClosed = p.isClosed ∧ p.startLoop.hasBroker = p.hasBroker := by
  unfold startLoop
  split <;> exact ⟨rfl, rfl⟩

theorem httpClient_kept (p : Pool) (certificate : Option ClientCertificate)
    (failure : Option Fault) :
    (p.httpClient certificate failure).2.isClosed = p.isClosed ∧
      (p.httpClient certificate failure).2.hasBroker = p.hasBroker := by
  have hloop := p.startLoop_kept
  have hopen := p.startLoop.openClient_kept (.http certificate) failure
  rw [hloop.1, hloop.2] at hopen
  unfold httpClient
  split
  · exact ⟨rfl, rfl⟩
  · split
    · exact ⟨rfl, rfl⟩
    · split <;> rename_i h <;> rw [h] at hopen <;> exact hopen

theorem sharedProducer_kept (p : Pool) (config : ClientConfig) (failure : Option Fault) :
    (p.sharedProducer config failure).2.isClosed = p.isClosed ∧
      (p.sharedProducer config failure).2.hasBroker = p.hasBroker := by
  have hopen := p.openClient_kept (.producer config) failure
  unfold sharedProducer
  split
  · exact ⟨rfl, rfl⟩
  · split
    · exact ⟨rfl, rfl⟩
    · split <;> rename_i h <;> rw [h] at hopen <;> exact hopen

theorem ownClient_kept (p : Pool) (role : ClientRole) (failure : Option Fault) :
    (p.ownClient role failure).2.isClosed = p.isClosed ∧
      (p.ownClient role failure).2.hasBroker = p.hasBroker := by
  unfold ownClient
  split
  · exact ⟨rfl, rfl⟩
  · exact p.openClient_kept role failure

theorem executor_kept (p : Pool) (failure : Option Fault) :
    (p.executor failure).2.isClosed = p.isClosed ∧
      (p.executor failure).2.hasBroker = p.hasBroker := by
  have hopen := p.openClient_kept .workers failure
  unfold executor
  split
  · exact ⟨rfl, rfl⟩
  · split
    · exact ⟨rfl, rfl⟩
    · split <;> rename_i h <;> rw [h] at hopen <;> exact hopen

theorem ownClient_ok {p : Pool} (hopen : p.isClosed = false) (hbroker : p.hasBroker = true)
    (role : ClientRole) : ∃ client, (p.ownClient role none).1 = .ok client := by
  simp [ownClient, checkOpen, checkBroker, hopen, hbroker, Except.bind, openClient]

end Pool

namespace World

theorem withPool_kept {α : Type} (w : World) {outcome : Except Fault α × Pool}
    (h : outcome.2.isClosed = w.pool.isClosed ∧ outcome.2.hasBroker = w.pool.hasBroker) :
    w.Kept (w.withPool outcome).2 := ⟨rfl, h.1, h.2⟩

theorem note_kept (w : World) (event : ClientEvent) : w.Kept (w.note event) := ⟨rfl, rfl, rfl⟩

/-! Sending. -/

theorem producer_kept (w : World) (settings : Settings) (tuning : ProducerTuning)
    (servers : Option String) (auth : Option BrokerAuthConfig) :
    w.Kept (w.producer settings tuning servers auth).2 ∧
      (w.producer settings tuning servers auth).2.cluster = w.cluster := by
  unfold producer
  split
  · exact ⟨.refl w, rfl⟩
  · refine ⟨w.withPool_kept ?_, rfl⟩
    dsimp only
    split
    · exact w.pool.sharedProducer_kept _ _
    · exact w.pool.ownClient_kept _ _

theorem sendBy_kept (w : World) (client : Nat) (owned : Bool) (sends : List Send)
    (schedule : Schedule) :
    let after := w.sendBy client owned sends schedule
    w.Kept after.2 ∧ after.1 = (w.cluster.performBy sends schedule).1 ∧
      after.2.cluster = (w.cluster.performBy sends schedule).2.spend
        (Cluster.callsIn sends schedule) := by
  unfold sendBy
  cases owned <;> exact ⟨⟨rfl, rfl, rfl⟩, rfl, rfl⟩

/-- All that sending can do: refuse before anything is sent, or run the sends by a schedule. -/
theorem sendAll_cases (w : World) (settings : Settings) (tuning : ProducerTuning)
    (servers : Option String) (auth : Option BrokerAuthConfig) (deadline : Binary64)
    (messages : List (Except Fault Outgoing)) :
    let after := w.sendAll settings tuning servers auth deadline messages
    let sends := w.cluster.prepare messages
    w.Kept after.2 ∧
    ((∃ fault, after.1 = .error fault ∧ after.2.cluster = w.cluster) ∨
    ∃ schedule : Schedule, schedule.Fits 0 messages.length ∧
      after.1 = .ok (w.cluster.performBy sends schedule).1 ∧
      after.2.cluster = (w.cluster.performBy sends schedule).2.spend
        (Cluster.callsIn sends schedule)) := by
  intro after sends
  have hproducer := w.producer_kept settings tuning servers auth
  have hfits := w.cluster.schedule_fits deadline messages
  simp only [after, sendAll]
  split
  · rename_i fault w₁ h
    rw [h] at hproducer
    exact ⟨hproducer.1, .inl ⟨fault, rfl, hproducer.2⟩⟩
  · rename_i client owned w₁ h
    rw [h] at hproducer
    have hworkers := w₁.withPool_kept (w₁.pool.executor_kept none)
    split
    · rename_i fault w₂ h₂
      rw [h₂] at hworkers
      have hcluster : w₂.cluster = w₁.cluster := (congrArg (fun r => r.2.cluster) h₂).symm
      exact ⟨hproducer.1.trans hworkers, .inl ⟨fault, rfl, hcluster.trans hproducer.2⟩⟩
    · rename_i workers w₂ h₂
      rw [h₂] at hworkers
      have hcluster : w₂.cluster = w.cluster :=
        (congrArg (fun r => r.2.cluster) h₂).symm.trans hproducer.2
      obtain ⟨hkept, houtcomes, hafter⟩ := w₂.sendBy_kept client owned
        (w₂.cluster.prepare messages)
        (w₂.cluster.schedule deadline (w₂.cluster.prepare messages))
      rw [hcluster] at hkept houtcomes hafter
      dsimp only at hkept houtcomes hafter ⊢
      rw [hcluster, houtcomes, hafter]
      exact ⟨hproducer.1.trans (hworkers.trans hkept), .inr ⟨_, hfits, rfl, rfl⟩⟩

theorem runProduce_cases (w : World) (settings : Settings) (step : ProduceStep) :
    let after := w.runProduce settings step
    let sends := w.cluster.prepare [encodeMessage step.topic step.headers step.jsonOptions
      step.partition step.timestamp step.key step.value]
    w.Kept after.2 ∧
    ((∃ fault, after.1 = .error fault ∧ after.2.cluster = w.cluster) ∨
    ∃ schedule : Schedule, schedule.Fits 0 1 ∧
      after.1 = .ok (sendResult w.now step.topic step.timeout step.headers step.key step.value
        ((w.cluster.performBy sends schedule).1 0)) ∧
      after.2.cluster = (w.cluster.performBy sends schedule).2.spend
        (Cluster.callsIn sends schedule)) := by
  intro after sends
  have h := w.sendAll_cases settings step.tuning step.bootstrapServers step.auth step.timeout
    [encodeMessage step.topic step.headers step.jsonOptions step.partition step.timestamp step.key
      step.value]
  rcases hsent : w.sendAll settings step.tuning step.bootstrapServers step.auth step.timeout
    [encodeMessage step.topic step.headers step.jsonOptions step.partition step.timestamp step.key
      step.value] with ⟨fault | outcomes, w₁⟩
  all_goals
    rw [hsent] at h
    simp only [after, runProduce, hsent]
    obtain ⟨hkept, ⟨other, hother, hcluster⟩ | ⟨schedule, hfits, hok, hcluster⟩⟩ := h
  · exact ⟨hkept, .inl ⟨fault, rfl, hcluster⟩⟩
  · cases hok
  · cases hother
  · cases hok
    exact ⟨hkept, .inr ⟨schedule, hfits, by rw [hkept.now], hcluster⟩⟩

theorem runBatchProduce_cases (w : World) (settings : Settings) (step : BatchProduceStep) :
    let after := w.runBatchProduce settings step
    let sends := w.cluster.prepare step.messagesToSend
    w.Kept after.2 ∧
    ((∃ fault, after.1 = .error fault ∧ after.2.cluster = w.cluster) ∨
    ∃ schedule : Schedule, schedule.Fits 0 step.messages.length ∧
      after.1 = .ok (step.result w.now (w.cluster.performBy sends schedule).1) ∧
      after.2.cluster = (w.cluster.performBy sends schedule).2.spend
        (Cluster.callsIn sends schedule)) := by
  intro after sends
  have h := w.sendAll_cases settings step.tuning step.bootstrapServers step.auth step.timeout
    step.messagesToSend
  rw [show step.messagesToSend.length = step.messages.length from List.length_map ..] at h
  rcases hsent : w.sendAll settings step.tuning step.bootstrapServers step.auth step.timeout
    step.messagesToSend with ⟨fault | outcomes, w₁⟩
  all_goals
    rw [hsent] at h
    simp only [after, runBatchProduce, hsent]
    obtain ⟨hkept, ⟨other, hother, hcluster⟩ | ⟨schedule, hfits, hok, hcluster⟩⟩ := h
  · exact ⟨hkept, .inl ⟨fault, rfl, hcluster⟩⟩
  · cases hok
  · cases hother
  · cases hok
    exact ⟨hkept, .inr ⟨schedule, hfits, by rw [hkept.now], hcluster⟩⟩

end World

/-! Receiving. -/

/-- The group that a step receives for: the one it names, or else that of the settings. -/
def BrokerSettings.groupOf (settings : BrokerSettings) (group : Option String) : String :=
  let asked :=
    match group with
    | some "" => settings.groupId
    | some group => group
    | none => settings.groupId
  if asked = "" then "assured-consumer" else asked

theorem Consumer.ofConfig_putAll (config : ClientConfig) (group : String) (reset : OffsetReset) :
    Consumer.ofConfig (config.putAll [("group.id", .text group),
      ("auto.offset.reset", .text reset.text), ("enable.auto.commit", .bool true)]) =
    { group := if group = "" then "assured-consumer" else group, reset := reset.text } := by
  have hgroup : ∀ (s : String) (default : String), Consumer.entry (config.putAll
      [("group.id", .text s), ("auto.offset.reset", .text reset.text),
        ("enable.auto.commit", .bool true)]) "group.id" default =
      if s = "" then default else s := by
    intro s default
    simp [entry, ClientConfig.get?, ClientConfig.putAll, Keyed.putAll, Keyed.get?_put,
      Value.truthy, Value.display]
  have hreset : ∀ default : String, Consumer.entry (config.putAll
      [("group.id", .text group), ("auto.offset.reset", .text reset.text),
        ("enable.auto.commit", .bool true)]) "auto.offset.reset" default = reset.text := by
    intro default
    cases reset <;> simp [entry, ClientConfig.get?, ClientConfig.putAll, Keyed.putAll,
      Keyed.get?_put, Value.truthy, Value.display, OffsetReset.text]
  rw [Consumer.ofConfig, hgroup, hreset]

/-- The consumer that a step opens for itself. -/
def BrokerSettings.consumer (settings : BrokerSettings) (group : Option String)
    (reset : OffsetReset) : Consumer := { group := settings.groupOf group, reset := reset.text }

theorem BrokerSettings.consumer_start (settings : BrokerSettings) (group : Option String)
    (reset : OffsetReset) : (settings.consumer group reset).start = reset := by
  cases reset <;> rfl

namespace Cluster

/-- Polls up to a number of times, as long as messages come. -/
def drain (c : Cluster) (consumer : Consumer) (topic : String) :
    Nat → List Message × Option String × Cluster
  | 0 => ([], none, c)
  | count + 1 =>
    match c.poll consumer topic with
    | (.received message, c) =>
      let rest := c.drain consumer topic count
      (message :: rest.1, rest.2)
    | (.nothing, c) => ([], none, c)
    | (.hung, c) => ([], none, c)
    | (.raised why, c) => ([], some why, c)

theorem drain_length (c : Cluster) (consumer : Consumer) (topic : String) (count : Nat) :
    (c.drain consumer topic count).1.length ≤ count ∧
      ((c.drain consumer topic count).2.1 ≠ none →
        (c.drain consumer topic count).1.length < count) := by
  induction count generalizing c with
  | zero => simp [drain]
  | succ count ih =>
    simp only [drain]
    split
    · rename_i message c' _
      obtain ⟨hle, hlt⟩ := ih c'
      refine ⟨Nat.succ_le_succ hle, fun h => Nat.succ_lt_succ (hlt h)⟩
    · simp
    · simp
    · simp

end Cluster

namespace World

/-- Whether steps with this authentication get a client of the broker. -/
structure Serves (w : World) (settings : Settings) (auth : Option BrokerAuthConfig) : Prop where
  isOpen : w.pool.isClosed = false
  hasBroker : w.pool.hasBroker = true
  resolves : ∃ strategy, BrokerStrategy.resolve (given auth settings.broker.auth) = .ok strategy

theorem Serves.of_kept {w w' : World} {settings : Settings} {auth : Option BrokerAuthConfig}
    (h : w.Serves settings auth) (hk : w.Kept w') : w'.Serves settings auth :=
  ⟨hk.isClosed.trans h.isOpen, hk.hasBroker.trans h.hasBroker, h.resolves⟩

/-- Opening a consumer fails only where no client of the broker is to be had. -/
theorem consumer_cases (w : World) (settings : Settings) (servers : Option String)
    (auth : Option BrokerAuthConfig) (group : Option String) (reset : OffsetReset) :
    let after := w.consumer settings servers auth group reset
    w.Kept after.2 ∧ after.2.cluster = w.cluster ∧
    ((∃ fault, after.1 = .error fault ∧ ¬ w.Serves settings auth) ∨
      ∃ client, after.1 = .ok (client, settings.broker.consumer group reset)) := by
  unfold consumer
  split
  · rename_i fault hconfig
    refine ⟨.refl w, rfl, .inl ⟨fault, rfl, fun ⟨_, _, strategy, h⟩ => ?_⟩⟩
    simp only [BrokerSettings.clientConfig, h, ok_bind] at hconfig
    cases hconfig
  · rename_i config _
    refine ⟨w.withPool_kept (w.pool.ownClient_kept _ _), rfl, ?_⟩
    simp only [withPool, Pool.createConsumer]
    cases hopen : (w.pool.ownClient _ none).1 with
    | error fault =>
      refine .inl ⟨fault, rfl, fun h => ?_⟩
      obtain ⟨client, hclient⟩ := Pool.ownClient_ok h.isOpen h.hasBroker (.consumer _)
      rw [hclient] at hopen
      cases hopen
    | ok client =>
      refine .inr ⟨client, ?_⟩
      rw [Except.map, Consumer.ofConfig_putAll]
      rfl

theorem poll_kept (w : World) (client : Nat) (consumer : Consumer) (topic : String) :
    let after := w.poll client consumer topic
    w.Kept after.2 ∧ after.1 = (w.cluster.poll consumer topic).1 ∧
      after.2.cluster = (w.cluster.poll consumer topic).2 :=
  ⟨⟨rfl, rfl, rfl⟩, rfl, rfl⟩

theorem drain_kept (w : World) (client : Nat) (consumer : Consumer) (topic : String)
    (count : Nat) :
    let after := w.drain client consumer topic count
    let drained := w.cluster.drain consumer topic count
    w.Kept after.2.2 ∧ after.1 = drained.1 ∧ after.2.1 = drained.2.1 ∧
      after.2.2.cluster = drained.2.2 := by
  induction count generalizing w with
  | zero => exact ⟨.refl w, rfl, rfl, rfl⟩
  | succ count ih =>
    obtain ⟨hkept, houtcome, hcluster⟩ := w.poll_kept client consumer topic
    simp only [drain, Cluster.drain]
    rcases hpoll : w.poll client consumer topic with ⟨outcome, w₁⟩
    rcases hown : w.cluster.poll consumer topic with ⟨own, c₁⟩
    rw [hpoll, hown] at houtcome hcluster
    rw [hpoll] at hkept
    dsimp only at houtcome hcluster hkept
    subst houtcome hcluster
    cases outcome with
    | received message =>
      obtain ⟨hrest, hmessages, hwhy, hafter⟩ := ih w₁
      exact ⟨hkept.trans hrest, congrArg (message :: ·) hmessages, hwhy, hafter⟩
    | nothing => exact ⟨hkept, rfl, rfl, rfl⟩
    | hung => exact ⟨hkept, rfl, rfl, rfl⟩
    | raised why => exact ⟨hkept, rfl, rfl, rfl⟩

theorem runConsume_cases (w : World) (settings : Settings) (step : ConsumeStep) :
    let after := w.runConsume settings step
    let polled := w.cluster.poll
      (settings.broker.consumer step.groupId step.autoOffsetReset) step.topic
    w.Kept after.2 ∧
    ((∃ fault, after.1 = .error fault ∧ ¬ w.Serves settings step.auth ∧
        after.2.cluster = w.cluster) ∨
      after.1 = .ok (step.result w.now polled.1) ∧ after.2.cluster = polled.2) := by
  intro after polled
  have h := w.consumer_cases settings step.bootstrapServers step.auth step.groupId
    step.autoOffsetReset
  simp only [after, polled, runConsume]
  rcases hopen : w.consumer settings step.bootstrapServers step.auth step.groupId
    step.autoOffsetReset with ⟨fault | ⟨client, consumer⟩, w₁⟩
  all_goals
    rw [hopen] at h
    obtain ⟨hkept, hcluster, ⟨other, hother, hnot⟩ | ⟨other, hother⟩⟩ := h <;> cases hother
  · exact ⟨hkept, .inl ⟨fault, rfl, hnot, hcluster⟩⟩
  · obtain ⟨hpolled, houtcome, hafter⟩ := w₁.poll_kept client
      (settings.broker.consumer step.groupId step.autoOffsetReset) step.topic
    dsimp only at hcluster hkept
    rw [hcluster] at houtcome hafter
    refine ⟨hkept.trans (hpolled.trans (note_kept _ _)), .inr ⟨?_, hafter⟩⟩
    dsimp only
    rw [houtcome, hpolled.now, hkept.now]

theorem runBatchConsume_cases (w : World) (settings : Settings) (step : BatchConsumeStep) :
    let after := w.runBatchConsume settings step
    let drained := w.cluster.drain (settings.broker.consumer step.groupId step.autoOffsetReset)
      step.topic step.messageCount.toNat
    w.Kept after.2 ∧
    ((∃ fault, after.1 = .error fault ∧ ¬ w.Serves settings step.auth ∧
        after.2.cluster = w.cluster) ∨
      after.1 = .ok (step.result w.now drained.1 drained.2.1) ∧
        after.2.cluster = drained.2.2) := by
  intro after drained
  have h := w.consumer_cases settings step.bootstrapServers step.auth step.groupId
    step.autoOffsetReset
  simp only [after, drained, runBatchConsume]
  rcases hopen : w.consumer settings step.bootstrapServers step.auth step.groupId
    step.autoOffsetReset with ⟨fault | ⟨client, consumer⟩, w₁⟩
  all_goals
    rw [hopen] at h
    obtain ⟨hkept, hcluster, ⟨other, hother, hnot⟩ | ⟨other, hother⟩⟩ := h <;> cases hother
  · exact ⟨hkept, .inl ⟨fault, rfl, hnot, hcluster⟩⟩
  · obtain ⟨hdrained, hmessages, hwhy, hafter⟩ := w₁.drain_kept client
      (settings.broker.consumer step.groupId step.autoOffsetReset) step.topic
      step.messageCount.toNat
    dsimp only at hcluster hkept
    rw [hcluster] at hmessages hwhy hafter
    refine ⟨hkept.trans (hdrained.trans (note_kept _ _)), .inr ⟨?_, hafter⟩⟩
    dsimp only
    rw [hmessages, hwhy, hdrained.now, hkept.now]

end World

end Rehearsal
