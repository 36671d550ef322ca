import Rehearsal.Proofs.Execution.Result
import Rehearsal.Proofs.Execution.Run

/-! What a batch of sends reports. Workers may take the sends in any order, each may come to
anything, and any of them may be unfinished at the deadline; the items are in the order of the
messages all the same, each with the outcome of its own send, and what is kept does not depend on
the order. -/

namespace Rehearsal

theorem exists_map_ok {ε α : Type} {outcomes : List (Except ε α)}
    (h : ∀ outcome ∈ outcomes, ∃ a, outcome = .ok a) :
    ∃ made : List α, outcomes = made.map .ok := by
  induction outcomes with
  | nil => exact ⟨[], rfl⟩
  | cons outcome rest ih =>
    obtain ⟨⟨a, rfl⟩, hrest⟩ := List.forall_mem_cons.mp h
    obtain ⟨made, rfl⟩ := ih hrest
    exact ⟨a :: made, rfl⟩

theorem encodeMessage_topic {topic : String} {headers : MessageHeaders}
    {options : List (String × Value)} {partition : Option Int} {timestamp : Option Instant}
    {key value : Value} {out : Outgoing}
    (h : encodeMessage topic headers options partition timestamp key value = .ok out) :
    out.topic = topic := by
  obtain ⟨_, -, h⟩ := bind_eq_ok.mp h
  obtain ⟨_, -, h⟩ := bind_eq_ok.mp h
  cases h
  rfl

namespace BatchProduceStep

variable {step : BatchProduceStep}

/-- A way of workers through the sends of a batch: how each call is disturbed, the order in which
the sends run, and which of them are done by the deadline. -/
structure Fanout (step : BatchProduceStep) where
  sends : List Send
  order : List Nat
  done : Nat → Bool
  messages : sends.map (·.message) = step.messagesToSend
  nodup : order.Nodup
  within : ∀ i ∈ order, i < step.messages.length

namespace Fanout

variable (f : step.Fanout) (c : Cluster)

/-- What each send came to by the deadline, and the cluster after the last one has ended. -/
def run : (Nat → SendOutcome) × Cluster := c.performIn f.sends f.order f.done

theorem sends_length : f.sends.length = step.messages.length := by
  simpa [messagesToSend] using congrArg List.length f.messages

/-- Every batch that the world runs is run in such a way. -/
theorem exists_of_run {w w' : World} {settings : Settings} {result : StepResult}
    (h : w.runBatchProduce settings step = (.ok result, w')) :
    ∃ f : step.Fanout, result = step.result w.now (f.run w.cluster).1 ∧
      w'.cluster.broker = (f.run w.cluster).2.broker := by
  obtain ⟨-, ⟨fault, hfault, -⟩ | ⟨schedule, hfits, hresult, hcluster⟩⟩ :=
    w.runBatchProduce_cases settings step
  · rw [h] at hfault
    cases hfault
  · rw [h, Cluster.performBy_eq _ _ hfits.nodup] at hresult hcluster
    let f : step.Fanout :=
      { sends := w.cluster.prepare step.messagesToSend, order := schedule.started
        done := fun i => schedule.prompt.contains i
        messages := Send.assign_messages step.messagesToSend w.cluster.sends
        nodup := hfits.nodup, within := fun i hi => (hfits.within i hi).2 }
    refine ⟨f, Except.ok.inj hresult, ?_⟩
    rw [show w'.cluster = _ from hcluster]
    rfl

variable {f : step.Fanout} {c : Cluster}

theorem exists_encoded
    (h : ∀ i < step.messages.length, ∃ report, (f.run c).1 i = .delivered report) :
    ∃ encoded : List Outgoing, step.messagesToSend = encoded.map .ok := by
  apply exists_map_ok
  intro outcome houtcome
  rw [← f.messages] at houtcome
  obtain ⟨send, hsend, rfl⟩ := List.mem_map.mp houtcome
  obtain ⟨i, hi, rfl⟩ := List.mem_iff_getElem.mp hsend
  obtain ⟨report, hreport⟩ := h i (f.sends_length ▸ hi)
  obtain ⟨-, send, hsend, out, hout⟩ := Cluster.performIn_delivered c hreport
  rw [List.getElem?_eq_getElem hi] at hsend
  exact ⟨out, Option.some.inj hsend ▸ hout⟩

/-- What a batch keeps if every send is delivered to a broker that persists. -/
theorem run_cargo (hb : c.broker.persistence = .persisted) (hs : ∀ send ∈ f.sends, send.Steady)
    (h : ∀ i < step.messages.length, ∃ report, (f.run c).1 i = .delivered report)
    {encoded : List Outgoing} (hencoded : step.messagesToSend = encoded.map .ok) (topic : String) :
    ((f.run c).2.broker.cargo topic).Perm
      (c.broker.cargo topic ++ if step.topic = topic then encoded.map Outgoing.cargo else []) := by
  have hlate : ∀ i < step.messages.length, (f.run c).1 i ≠ .late := by
    intro i hi hlate
    obtain ⟨report, hreport⟩ := h i hi
    rw [hreport] at hlate
    cases hlate
  refine (Cluster.performIn_cargo c f.nodup f.within hlate topic).trans
    (.append_left _ (.of_eq ?_))
  -- the send with a number keeps the message with that number
  have hkept : ∀ i < step.messages.length, Cluster.keptOf f.sends topic ((f.run c).1 i) i =
      (encoded[i]?).elim [] fun out => if step.topic = topic then [out.cargo] else [] := by
    intro i hi
    obtain ⟨report, hreport⟩ := h i hi
    obtain ⟨hfound, send, hsend, out, hout⟩ := Cluster.performIn_delivered c hreport
    have hstatus := (Cluster.performAll_persists hb hs f.order).2 i report hfound
    have hmessage : encoded[i]? = some out := by
      have hboth := congrArg (·[i]?) (f.messages.trans hencoded)
      simpa [hsend, hout] using hboth.symm
    have htopic : out.topic = step.topic := by
      have hmem : Except.ok out ∈ step.messagesToSend := by
        rw [hencoded]
        exact List.mem_map_of_mem (List.mem_of_getElem? hmessage)
      obtain ⟨⟨key, value⟩, -, hencode⟩ := List.mem_map.mp hmem
      exact encodeMessage_topic hencode
    rw [hreport, hmessage]
    simp [Cluster.keptOf, hsend, Send.keeps, hout, DeliveryReport.keeps, hstatus, htopic]
  have hlength : encoded.length = step.messages.length := by
    simpa [messagesToSend] using (congrArg List.length hencoded).symm
  calc (List.range step.messages.length).flatMap (fun i =>
        Cluster.keptOf f.sends topic ((f.run c).1 i) i)
      = (List.range encoded.length).flatMap (fun i =>
        (encoded[i]?).elim [] fun out => if step.topic = topic then [out.cargo] else []) := by
        rw [hlength]
        exact List.flatMap_congr fun i hi => hkept i (List.mem_range.mp hi)
    _ = encoded.flatMap (fun out => if step.topic = topic then [out.cargo] else []) :=
        flatMap_range encoded _
    _ = if step.topic = topic then encoded.map Outgoing.cargo else [] := by
        split
        · exact (List.map_eq_flatMap ..).symm
        · exact List.flatMap_eq_nil_iff.mpr fun _ _ => rfl

theorem success (hb : c.broker.persistence = .persisted) (hs : ∀ send ∈ f.sends, send.Steady)
    (h : ∀ i < step.messages.length, ∃ report, (f.run c).1 i = .delivered report) (now : Instant) :
    (step.result now (f.run c).1).success = true := by
  rw [(step.result_lawful now (f.run c).1).2.2]
  intro item hitem
  obtain ⟨i, hi, rfl⟩ := List.mem_mapIdx.mp hitem
  obtain ⟨report, hreport⟩ := h i hi
  obtain ⟨hfound, -⟩ := Cluster.performIn_delivered c hreport
  exact (sendResult_success ..).mpr
    ⟨report, hreport, (Cluster.performAll_persists hb hs f.order).2 i report hfound⟩

end Fanout

variable (step : BatchProduceStep) (now : Instant) (outcomes : Nat → SendOutcome)

theorem results_get? {i : Nat} (h : i < step.messages.length) :
    (step.results now outcomes)[i]? = some (sendResult now step.topic step.timeout step.headers
      step.messages[i].1 step.messages[i].2 (outcomes i)) := by
  simp [results, h]

end BatchProduceStep

end Rehearsal
