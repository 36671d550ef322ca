import Rehearsal.Proofs.Broker.Unread
import Rehearsal.Proofs.Execution.BatchOrder

/-! What steps put on a topic and take from it where every call goes through. A step that sends and
finishes adds the messages whose sends succeeded. A step that receives for a group takes as many of
the messages the group has yet to receive as it asks for, or all there are, and returns them as it
reads them. -/

namespace Rehearsal

/-- A cluster whose broker persists and whose calls all go through. -/
structure Cluster.Calm (c : Cluster) : Prop where
  persists : c.broker.persistence = .persisted
  sends : ∀ d ∈ c.sends, d = none
  polls : ∀ d ∈ c.polls, d = none
  placed : c.broker.Placed

namespace Cluster

variable {c : Cluster}

/-! Receiving. -/

theorem Calm.poll_eq (h : c.Calm) {consumer : Consumer} (hopen : consumer.closed = false)
    (topic : String) :
    c.poll consumer topic =
      (((c.broker.poll consumer.group topic consumer.start).1.map PollOutcome.received).getD
          .nothing,
        { c with
          broker := (c.broker.poll consumer.group topic consumer.start).2
          polls := c.polls.tail }) := by
  have hpass : ∀ b : Broker, consumer.poll b topic =
      (.ok (b.poll consumer.group topic consumer.start).1,
        (b.poll consumer.group topic consumer.start).2) := by
    intro b
    simp [Consumer.poll, hopen]
  have hhead : ∀ d script, c.polls = d :: script → d = none := by
    intro d script hpolls
    exact h.polls d (by simp [hpolls])
  unfold poll
  cases hpolls : c.polls with
  | nil =>
    simp only [hpass]
    cases (c.broker.poll consumer.group topic consumer.start).1 <;> simp [hpolls]
  | cons d script =>
    obtain rfl := hhead d script hpolls
    simp only [hpass]
    cases (c.broker.poll consumer.group topic consumer.start).1 <;> rfl

theorem Calm.poll (h : c.Calm) {consumer : Consumer} (hstart : consumer.start = .earliest)
    (hopen : consumer.closed = false) (topic : String) :
    let polled := c.poll consumer topic
    polled.2.Calm ∧
    (polled.1 = .nothing ∧ c.broker.unread consumer.group topic = [] ∧
        c.broker.Hands consumer.group topic [] polled.2.broker ∨
      ∃ message, polled.1 = .received message ∧
        c.broker.Hands consumer.group topic [message] polled.2.broker) := by
  intro polled
  have htail : ∀ d ∈ c.polls.tail, d = none := fun d hd => h.polls d (List.mem_of_mem_tail hd)
  have hcalm : ∀ {messages}, c.broker.Hands consumer.group topic messages polled.2.broker →
      polled.2 = { c with broker := polled.2.broker, polls := c.polls.tail } → polled.2.Calm := by
    intro messages hhands hpolled
    rw [hpolled]
    exact ⟨hhands.persistence.trans h.persists, h.sends, htail, h.placed.of_log hhands.logs⟩
  have heq : polled = _ := h.poll_eq hopen topic
  rw [hstart] at heq
  have hsecond : polled.2 = { c with broker := polled.2.broker, polls := c.polls.tail } := by
    rw [heq]
  rcases Broker.poll_hands h.placed consumer.group topic with
    ⟨hnone, hunread, hhands⟩ | ⟨message, hsome, hhands⟩
  · rw [hnone] at heq
    have hown : c.broker.Hands consumer.group topic [] polled.2.broker := by
      rw [heq]
      exact hhands
    exact ⟨hcalm hown hsecond, .inl ⟨by rw [heq]; rfl, hunread, hown⟩⟩
  · rw [hsome] at heq
    have hown : c.broker.Hands consumer.group topic [message] polled.2.broker := by
      rw [heq]
      exact hhands
    exact ⟨hcalm hown hsecond, .inr ⟨message, by rw [heq]; rfl, hown⟩⟩

theorem Calm.drain (h : c.Calm) {consumer : Consumer} (hstart : consumer.start = .earliest)
    (hopen : consumer.closed = false) (topic : String) (count : Nat) :
    let drained := c.drain consumer topic count
    drained.2.2.Calm ∧ drained.2.1 = none ∧
      c.broker.Hands consumer.group topic drained.1 drained.2.2.broker ∧
      drained.1.length = min count (c.broker.unread consumer.group topic).length := by
  induction count generalizing c with
  | zero => exact ⟨h, rfl, .refl _ _ _, by simp [Cluster.drain]⟩
  | succ count ih =>
    obtain ⟨hcalm, ⟨hnone, hunread, hhands⟩ | ⟨message, hsome, hhands⟩⟩ :=
      h.poll hstart hopen topic
    all_goals
      rcases hpoll : c.poll consumer topic with ⟨outcome, c'⟩
      simp only [hpoll] at hcalm hhands
    · simp only [hpoll] at hnone
      subst hnone
      simp only [Cluster.drain, hpoll]
      exact ⟨hcalm, trivial, hhands, by simp [hunread]⟩
    · simp only [hpoll] at hsome
      subst hsome
      obtain ⟨hcalm, hwhy, hlater, hlength⟩ := ih hcalm
      simp only [Cluster.drain, hpoll]
      refine ⟨hcalm, hwhy, hhands.trans hlater, ?_⟩
      have hcount := hhands.unread.length_eq
      simp only [List.length_append, List.length_cons, List.length_nil] at hcount ⊢
      rw [hlength]
      omega

/-! Sending. -/

theorem Calm.performBy (h : c.Calm) (messages : List (Except Fault Outgoing))
    (schedule : Schedule) (calls : Nat) (hd : schedule.started.Nodup) :
    let after := (c.performBy (c.prepare messages) schedule).2.spend calls
    after.Calm ∧ after.broker.positions = c.broker.positions := by
  intro after
  have hundisturbed : ∀ send ∈ c.prepare messages, send.disturbance = none :=
    Send.assign_undisturbed h.sends
  have hsteady : ∀ send ∈ c.prepare messages, send.Steady := fun send hsend status hs => by
    rw [hundisturbed send hsend] at hs
    cases hs
  have hafter : after = (c.performAll (c.prepare messages) schedule.started).2.spend calls := by
    simp only [after, performBy_eq c _ hd, performIn]
  have hscripts := c.performAll_scripts (c.prepare messages) schedule.started
  have hkept : ∀ (P : Broker → Prop), P c.broker →
      (∀ b status, P b → P { b with persistence := status }) →
      (∀ b out, P b → P (b.append out).2) → P after.broker := by
    intro P hP hconfirm happend
    rw [hafter]
    exact performAll_holds hconfirm happend hP _ _
  refine ⟨⟨?_, ?_, ?_, ?_⟩, ?_⟩
  · rw [hafter]
    exact (performAll_persists h.persists hsteady schedule.started).1
  · rw [hafter, hscripts]
    exact fun d hd => h.sends d (List.mem_of_mem_drop hd)
  · rw [hafter, hscripts]
    exact h.polls
  · exact hkept Broker.Placed h.placed (fun b status hb => hb.of_log fun _ _ => rfl)
      fun b out hb => hb.append out
  · exact hkept (fun b => b.positions = c.broker.positions) rfl (fun _ _ hb => hb)
      fun b out hb => (b.positions_append out).trans hb

end Cluster

/-- Results that tell what came of sends: whether each was persisted, and whether it was late. -/
def Tell (results : List StepResult) (outcomes : Nat → SendOutcome) : Prop :=
  ∀ i result, results[i]? = some result →
    (result.success = true ↔
      ∃ report, outcomes i = .delivered report ∧ report.status = .persisted) ∧
    (result.timedOut = true ↔ outcomes i = .late)

/-- What a send whose message and result these are has put on a topic. -/
def keptFrom (topic : String) : Except Fault Outgoing × StepResult → List Cargo
  | (.ok out, result) => if result.success = true ∧ out.topic = topic then [out.cargo] else []
  | (.error _, _) => []

theorem Cluster.keptOf_eq {sends : List Send} {messages : List (Except Fault Outgoing)}
    {results : List StepResult} {outcomes : Nat → SendOutcome}
    (hsends : sends.map (·.message) = messages) (hlength : results.length = messages.length)
    (htell : Tell results outcomes) (topic : String) :
    ((List.range messages.length).flatMap fun i => keptOf sends topic (outcomes i) i) =
      (messages.zip results).flatMap (keptFrom topic) := by
  have hzip : (messages.zip results).length = messages.length := by
    rw [List.length_zip, hlength, Nat.min_self]
  rw [← flatMap_range (messages.zip results), hzip]
  refine List.flatMap_congr fun i hi => ?_
  have hi := List.mem_range.mp hi
  have hboth : (messages.zip results)[i]? = some (messages[i], results[i]) := by
    rw [List.getElem?_eq_getElem (by rw [hzip]; exact hi), List.getElem_zip]
  obtain ⟨send, hsend, hmessage⟩ : ∃ send, sends[i]? = some send ∧ send.message = messages[i] := by
    have hmap := congrArg (·[i]?) hsends
    simpa [List.getElem?_eq_getElem hi] using hmap
  have hresult := (htell i results[i] (List.getElem?_eq_getElem (hlength ▸ hi))).1
  simp only [hboth, keptOf, hsend, Option.elim_some, Send.keeps, hmessage]
  cases messages[i] with
  | error fault => rfl
  | ok out =>
    cases houtcome : outcomes i <;> simp only [houtcome] at hresult <;>
      simp [keptFrom, DeliveryReport.keeps, hresult]

namespace Step

/-- The messages that a step sends, each with its result. -/
def sends : Step → StepResult → List (Except Fault Outgoing × StepResult)
  | .produce step, result =>
    [(encodeMessage step.topic step.headers step.jsonOptions step.partition step.timestamp step.key
      step.value, result)]
  | .batchProduce step, result => step.messagesToSend.zip result.items
  | _, _ => []

/-- Whether everything that a step sends is done in time. -/
def Finished (step : Step) (result : StepResult) : Prop :=
  ∀ sent ∈ step.sends result, sent.2.timedOut = false

instance (step : Step) (result : StepResult) : Decidable (step.Finished result) :=
  inferInstanceAs (Decidable (∀ sent ∈ step.sends result, sent.2.timedOut = false))

/-- What a step has put on a topic: the messages whose sends succeeded. -/
def puts (step : Step) (result : StepResult) (topic : String) : List Cargo :=
  (step.sends result).flatMap (keptFrom topic)

end Step

namespace World

variable {w w' : World} {settings : Settings} {result : StepResult}

/-- What sending does to a calm cluster: something is added under a topic, and no group is moved. -/
structure Gains (w w' : World) (topic : String) (gained : List Cargo) : Prop where
  calm : w'.cluster.Calm
  cargo : (w'.cluster.broker.cargo topic).Perm (w.cluster.broker.cargo topic ++ gained)
  positions : w'.cluster.broker.positions = w.cluster.broker.positions

theorem Gains.of_sends (h : w.cluster.Calm) (messages : List (Except Fault Outgoing))
    (results : List StepResult) {schedule : Schedule} (hfits : schedule.Fits 0 messages.length)
    (hlength : results.length = messages.length)
    (htell : Tell results (w.cluster.performBy (w.cluster.prepare messages) schedule).1)
    (hfinished : ∀ sent ∈ messages.zip results, sent.2.timedOut = false)
    {calls : Nat} (hcluster : w'.cluster =
      (w.cluster.performBy (w.cluster.prepare messages) schedule).2.spend calls) (topic : String) :
    w.Gains w' topic ((messages.zip results).flatMap (keptFrom topic)) := by
  obtain ⟨hcalm, hpositions⟩ := h.performBy messages schedule calls hfits.nodup
  rw [← hcluster] at hcalm hpositions
  refine ⟨hcalm, ?_, hpositions⟩
  have hdone : ∀ i < messages.length,
      (w.cluster.performBy (w.cluster.prepare messages) schedule).1 i ≠ .late := by
    intro i hi hlate
    have hlast := (htell i results[i] (List.getElem?_eq_getElem (by omega))).2.mpr hlate
    have hzip : i < (messages.zip results).length := by
      rw [List.length_zip]
      omega
    have hmem := List.getElem_mem hzip
    rw [List.getElem_zip] at hmem
    exact absurd hlast (by simpa using hfinished _ hmem)
  rw [hcluster, ← Cluster.keptOf_eq (Send.assign_messages messages w.cluster.sends) hlength htell]
  rw [Cluster.performBy_eq _ _ hfits.nodup] at hdone ⊢
  exact Cluster.performIn_cargo _ hfits.nodup (fun i hi => (hfits.within i hi).2) hdone topic

/-- A step that sends and finishes adds what it put on a topic. -/
theorem run_gains (h : w.cluster.Calm) {step : Step} (hstep : step.variant ∈ Variant.produceSteps)
    (hrun : w.run settings step = (.ok result, w')) (hfinished : step.Finished result)
    (topic : String) : w.Gains w' topic (step.puts result topic) := by
  cases step with
  | produce step =>
    obtain ⟨-, ⟨fault, hend, -⟩ | ⟨schedule, hfits, hend, hcluster⟩⟩ :=
      w.runProduce_cases settings step
    · rw [show w.runProduce settings step = _ from hrun] at hend
      cases hend
    · rw [show w.runProduce settings step = _ from hrun] at hend hcluster
      cases hend
      refine Gains.of_sends h [_] [_] hfits rfl (fun i result hi => ?_) hfinished hcluster topic
      obtain ⟨rfl, rfl⟩ : i = 0 ∧ _ = result := by simpa [List.getElem?_singleton] using hi
      exact ⟨sendResult_success .., sendResult_timedOut ..⟩
  | batchProduce step =>
    obtain ⟨-, ⟨fault, hend, -⟩ | ⟨schedule, hfits, hend, hcluster⟩⟩ :=
      w.runBatchProduce_cases settings step
    · rw [show w.runBatchProduce settings step = _ from hrun] at hend
      cases hend
    · rw [show w.runBatchProduce settings step = _ from hrun] at hend hcluster
      cases hend
      have hlength : step.messagesToSend.length = step.messages.length := List.length_map _
      refine Gains.of_sends h step.messagesToSend (step.results w.now _) (hlength ▸ hfits)
        ((step.results_length w.now _).trans hlength.symm) (fun i result hi => ?_) hfinished
        hcluster topic
      have hlt := (List.getElem?_eq_some_iff.mp hi).1
      rw [BatchProduceStep.results_length] at hlt
      obtain rfl := Option.some.inj ((step.results_get? w.now _ hlt).symm.trans hi)
      exact ⟨sendResult_success .., sendResult_timedOut ..⟩
  | _ => exact absurd hstep (by simp [Step.variant, Variant.produceSteps])

end World

/-! What receiving returns. -/

/-- How the cargo of a message is read: the key as text, and the value as the expected type, or as
it is if it is not of that type. -/
def Cargo.reading (expected : Option Kind) (cargo : Cargo) : Value × Value :=
  (Codec.decodeKey cargo.key,
    match Codec.decode cargo.value expected with
    | .ok value => value
    | .error _ => .ofOption .bytes cargo.value)

def Cargo.Readable (expected : Option Kind) (cargo : Cargo) : Prop :=
  ∃ value, Codec.decode cargo.value expected = .ok value

namespace StepResult

def pair (r : StepResult) : Value × Value := (r.property "key", r.payload)

def place (r : StepResult) : Value × Value := (r.property "partition", r.property "offset")

/-- A result of a message is one that tells an offset. -/
def isOfMessage (r : StepResult) : Bool := (r.property? "offset").isSome

end StepResult

theorem messageResult_tells (now : Instant) (expected : Option Kind) (m : Message) :
    let r := messageResult now expected m
    r.isOfMessage = true ∧ r.pair = m.cargo.reading expected ∧
      r.place = (.int m.partition, .int m.offset) ∧
      (r.success = true ↔ m.cargo.Readable expected) := by
  simp only [messageResult, Cargo.reading, Cargo.Readable, Message.cargo]
  cases hdecode : Codec.decode m.value expected with
  | ok value => exact ⟨rfl, rfl, rfl, iff_of_true rfl ⟨value, rfl⟩⟩
  | error fault => exact ⟨rfl, rfl, rfl, iff_of_false nofun nofun⟩

namespace Step

def expected : Step → Option Kind
  | .consume step => step.expectedType
  | .batchConsume step => step.expectedType
  | _ => none

/-- How many messages a step asks for. -/
def wanted : Step → Nat
  | .consume _ => 1
  | .batchConsume step => step.messageCount.toNat
  | _ => 0

/-- Whether a step receives messages of a topic for a group that starts at the beginning. -/
def Receives (settings : Settings) (group topic : String) : Step → Prop
  | .consume step => step.topic = topic ∧ settings.broker.groupOf step.groupId = group ∧
      step.autoOffsetReset = .earliest
  | .batchConsume step => step.topic = topic ∧ settings.broker.groupOf step.groupId = group ∧
      step.autoOffsetReset = .earliest ∧ 1 ≤ step.messageCount
  | _ => False

instance (settings : Settings) (group topic : String) (step : Step) :
    Decidable (step.Receives settings group topic) :=
  match step with
  | .consume step => inferInstanceAs (Decidable (step.topic = topic ∧
      settings.broker.groupOf step.groupId = group ∧ step.autoOffsetReset = .earliest))
  | .batchConsume step => inferInstanceAs (Decidable (step.topic = topic ∧
      settings.broker.groupOf step.groupId = group ∧ step.autoOffsetReset = .earliest ∧
      1 ≤ step.messageCount))
  | .http _ => .isFalse id
  | .produce _ => .isFalse id
  | .batchProduce _ => .isFalse id

/-- The results of the messages that a step returned. -/
def returned (step : Step) (result : StepResult) : List StepResult :=
  match step with
  | .consume _ => [result].filter StepResult.isOfMessage
  | .batchConsume _ => result.items.filter StepResult.isOfMessage
  | _ => []

/-- What a step returns that was handed messages: each as it reads it and with its place. It
succeeds if these are as many as it asked for and all can be read, and a batch tells how many are
missing. -/
structure Brings (step : Step) (result : StepResult) (got : List Message) : Prop where
  pairs : (step.returned result).map StepResult.pair =
    got.map fun m => m.cargo.reading step.expected
  places : (step.returned result).map StepResult.place =
    got.map fun m => (.int m.partition, .int m.offset)
  success : result.success = true ↔
    got.length = step.wanted ∧ ∀ m ∈ got, m.cargo.Readable step.expected
  short : ∀ batch, step = .batchConsume batch → got.length < step.wanted →
    result.items.length = got.length ∧ result.error = some (.stepTimeout
      (.consumedFewer got.length batch.messageCount batch.topic batch.timeout))

end Step

theorem returned_tells (now : Instant) (expected : Option Kind) (got : List Message) :
    let results := (got.map (messageResult now expected)).filter StepResult.isOfMessage
    results.map StepResult.pair = got.map (fun m => m.cargo.reading expected) ∧
      results.map StepResult.place = got.map fun m => (.int m.partition, .int m.offset) := by
  have hall : (got.map (messageResult now expected)).filter StepResult.isOfMessage =
      got.map (messageResult now expected) := by
    rw [List.filter_eq_self]
    intro r hr
    obtain ⟨m, -, rfl⟩ := List.mem_map.mp hr
    exact (messageResult_tells now expected m).1
  intro results
  simp only [results, hall, List.map_map]
  exact ⟨List.map_congr_left fun m _ => (messageResult_tells now expected m).2.1,
    List.map_congr_left fun m _ => (messageResult_tells now expected m).2.2.1⟩

theorem ConsumeStep.brings_one (step : ConsumeStep) (now : Instant) (m : Message) :
    (Step.consume step).Brings (step.result now (.received m)) [m] := by
  obtain ⟨hpairs, hplaces⟩ := returned_tells now step.expectedType [m]
  have htells := (messageResult_tells now step.expectedType m).2.2.2
  refine ⟨hpairs, hplaces, ?_, fun batch hbatch => by cases hbatch⟩
  simpa only [ConsumeStep.result, Step.wanted, Step.expected, List.length_cons, List.length_nil,
    List.forall_mem_singleton, true_and] using htells

theorem ConsumeStep.brings_none (step : ConsumeStep) (now : Instant) :
    (Step.consume step).Brings (step.result now .nothing) [] := by
  have hreturned : (Step.consume step).returned (step.result now .nothing) = [] := by
    simp [Step.returned, ConsumeStep.result, StepResult.isOfMessage, StepResult.property?,
      StepResult.failure]
  refine ⟨by rw [hreturned]; rfl, by rw [hreturned]; rfl, ?_, fun batch hbatch => by cases hbatch⟩
  simp [ConsumeStep.result, StepResult.failure, Step.wanted]

theorem BatchConsumeStep.brings (step : BatchConsumeStep) (hcount : 1 ≤ step.messageCount)
    (now : Instant) {got : List Message} (hfew : got.length ≤ step.messageCount.toNat) :
    (Step.batchConsume step).Brings (step.result now got none) got := by
  obtain ⟨hpairs, hplaces⟩ := returned_tells now step.expectedType got
  have hwhy : (none : Option String) ≠ none → (got.length : Int) < step.messageCount :=
    fun h => absurd rfl h
  obtain ⟨-, -, hsuccess⟩ := step.result_lawful now (by omega) hwhy
  refine ⟨hpairs, hplaces, ?_, ?_⟩
  · rw [hsuccess, step.items_length]
    refine and_congr ?_ ?_
    · simp only [Step.wanted]
      omega
    · rw [show (step.result now got none).items = got.map (messageResult now step.expectedType)
        from rfl, List.forall_mem_map]
      exact forall₂_congr fun m _ => (messageResult_tells now step.expectedType m).2.2.2
  · rintro batch hbatch hshort
    cases hbatch
    have hless : (got.length : Int) < step.messageCount := by
      simp only [Step.wanted] at hshort
      omega
    refine ⟨step.items_length now got none, ?_⟩
    change batchFault _ (step.shortfall got.length none) = _
    rw [BatchConsumeStep.shortfall, if_pos hless, batchFault]

namespace World

variable {w w' : World} {settings : Settings} {result : StepResult} {group topic : String}

/-- A step that receives for a group is handed what there is for the group, up to as many messages
as it asks for, and returns that. -/
theorem run_brings (h : w.cluster.Calm) {step : Step} (hstep : step.Receives settings group topic)
    (hrun : w.run settings step = (.ok result, w')) :
    w'.cluster.Calm ∧ ∃ got, w.cluster.broker.Hands group topic got w'.cluster.broker ∧
      got.length = min step.wanted (w.cluster.broker.unread group topic).length ∧
      step.Brings result got := by
  cases step with
  | consume step =>
    obtain ⟨rfl, rfl, hreset⟩ := hstep
    have hstart :
        (settings.broker.consumer step.groupId step.autoOffsetReset).start = .earliest := by
      rw [BrokerSettings.consumer_start, hreset]
    obtain ⟨-, ⟨fault, hend, -⟩ | ⟨hend, hcluster⟩⟩ := w.runConsume_cases settings step
    · rw [show w.runConsume settings step = _ from hrun] at hend
      cases hend
    · rw [show w.runConsume settings step = _ from hrun] at hend hcluster
      obtain ⟨hcalm, hpolled⟩ := h.poll hstart rfl step.topic
      rw [← hcluster] at hcalm hpolled
      refine ⟨hcalm, ?_⟩
      -- one call: nothing comes just if there is nothing to receive
      obtain ⟨houtcome, hunread, hhands⟩ | ⟨message, houtcome, hhands⟩ := hpolled
      · rw [houtcome] at hend
        cases hend
        refine ⟨[], hhands, ?_, step.brings_none w.now⟩
        have hnone : (w.cluster.broker.unread (settings.broker.groupOf step.groupId)
            step.topic).length = 0 := congrArg List.length hunread
        rw [hnone, Nat.min_zero, List.length_nil]
      · rw [houtcome] at hend
        cases hend
        refine ⟨[message], hhands, ?_, step.brings_one w.now message⟩
        have hone : 1 ≤ (w.cluster.broker.unread (settings.broker.groupOf step.groupId)
            step.topic).length := by
          have hcount := hhands.unread.length_eq
          exact hcount ▸ Nat.le_add_left 1 _
        exact (Nat.min_eq_left hone).symm
  | batchConsume step =>
    obtain ⟨rfl, rfl, hreset, hcount⟩ := hstep
    have hstart :
        (settings.broker.consumer step.groupId step.autoOffsetReset).start = .earliest := by
      rw [BrokerSettings.consumer_start, hreset]
    obtain ⟨-, ⟨fault, hend, -⟩ | ⟨hend, hcluster⟩⟩ := w.runBatchConsume_cases settings step
    · rw [show w.runBatchConsume settings step = _ from hrun] at hend
      cases hend
    · rw [show w.runBatchConsume settings step = _ from hrun] at hend hcluster
      obtain ⟨hcalm, hwhy, hhands, hlength⟩ := h.drain hstart rfl step.topic step.messageCount.toNat
      rw [hwhy] at hend
      rw [← hcluster] at hcalm hhands
      cases hend
      have hfew := Nat.le_trans (Nat.le_of_eq hlength) (Nat.min_le_left _ _)
      exact ⟨hcalm, _, hhands, hlength, step.brings hcount w.now hfew⟩
  | _ => exact hstep.elim

end World

end Rehearsal
