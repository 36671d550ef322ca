import Rehearsal.Proofs.Execution.Request

/-! Every step that returns returns a lawful result, whatever its settings are and however the
cluster and the endpoints behave. The flag of a request tells whether a response with a status of
success arrived, that of a message what became of the message, and that of a batch whether every
item that was expected is there and succeeded. -/

namespace Rehearsal

theorem StepDraft.build_batchConsume {draft : StepDraft} {step : BatchConsumeStep}
    (h : draft.build = .ok (.batchConsume step)) : 1 ≤ step.messageCount := by
  cases draft with
  | batchConsume d =>
    obtain ⟨made, hmade, hstep⟩ := map_eq_ok.mp h
    cases hstep
    obtain ⟨topic, -, hmade⟩ := bind_eq_ok.mp hmade
    split at hmade
    · cases hmade
    · obtain ⟨reset, -, hmade⟩ := bind_eq_ok.mp hmade
      obtain ⟨timeout, -, hmade⟩ := bind_eq_ok.mp hmade
      cases hmade
      dsimp only
      omega
  | _ =>
    obtain ⟨made, -, hstep⟩ := map_eq_ok.mp h
    cases hstep

namespace World

variable {w w' : World} {settings : Settings} {result : StepResult}

theorem runHttp_lawful {step : HttpStep} (h : w.runHttp settings step = (.ok result, w')) :
    let arrived := w.response? settings step
    result.Lawful ∧ result.kind = .http ∧
      (result.success = true ↔ ∃ r, arrived = some r ∧ 200 ≤ r.status ∧ r.status < 300) ∧
      (result.error = none ↔ ∃ r, arrived = some r) ∧
      ((∀ r, arrived = some r → r.status ≠ 0) →
        (result.statusCode = some 0 ↔ arrived = none)) := by
  intro arrived
  obtain ⟨-, -, ⟨fault, hend⟩ | ⟨hnone, fault, hend⟩ | ⟨r, address, hsome, hend⟩⟩ :=
    w.runHttp_cases settings step
  all_goals
    rw [h] at hend
    cases hend
  · change arrived = none at hnone
    rw [hnone]
    refine ⟨step.failed_lawful w.now fault, rfl, ?_, ?_, fun _ => iff_of_true rfl rfl⟩
    · simp [HttpStep.failed, StepResult.failure]
    · simp [HttpStep.failed, StepResult.failure]
  · change arrived = some r at hsome
    rw [hsome]
    refine ⟨step.received_lawful w.now address r, rfl, ?_, ?_, fun hstatus => ?_⟩
    · simpa [HttpStep.received] using r.isSuccess_iff
    · exact iff_of_true rfl ⟨r, rfl⟩
    · simpa [HttpStep.received] using hstatus r rfl

theorem runProduce_lawful {step : ProduceStep} (h : w.runProduce settings step = (.ok result, w')) :
    result.Lawful ∧ result.kind = .produce ∧
      ∃ send outcome, w.cluster.prepare [encodeMessage step.topic step.headers step.jsonOptions
          step.partition step.timestamp step.key step.value] = [send] ∧
        (outcome = .late ∨ outcome = (w.cluster.perform send).1) ∧
        (result.success = true ↔
          ∃ report, outcome = .delivered report ∧ report.status = .persisted) := by
  obtain ⟨-, ⟨fault, hend, -⟩ | ⟨schedule, hfits, hend, -⟩⟩ := w.runProduce_cases settings step
  all_goals
    rw [h] at hend
    cases hend
  obtain ⟨send, hsend, -⟩ := List.map_eq_singleton_iff.mp
    (Send.assign_messages [encodeMessage step.topic step.headers step.jsonOptions step.partition
      step.timestamp step.key step.value] w.cluster.sends)
  have hprepare : w.cluster.prepare [encodeMessage step.topic step.headers step.jsonOptions
      step.partition step.timestamp step.key step.value] = [send] := hsend
  rw [hprepare]
  obtain ⟨hkind, hitems, -, -⟩ := sendResult_fields w.now step.topic step.timeout step.headers
    step.key step.value ((w.cluster.performBy [send] schedule).1 0)
  exact ⟨StepResult.lawful_single (sendResult_coherent ..) hitems, hkind, send, _, rfl,
    w.cluster.performBy_single send hfits, sendResult_success ..⟩

theorem runConsume_lawful {step : ConsumeStep} (h : w.runConsume settings step = (.ok result, w')) :
    result.Lawful ∧ result.kind = .consume := by
  obtain ⟨-, ⟨fault, hend, -⟩ | ⟨hend, -⟩⟩ := w.runConsume_cases settings step
  all_goals
    rw [h] at hend
    cases hend
  exact (step.result_lawful w.now _).symm

theorem runBatchProduce_lawful {step : BatchProduceStep}
    (h : w.runBatchProduce settings step = (.ok result, w')) :
    result.Lawful ∧ result.kind = .batchProduce ∧ (∀ item ∈ result.items, item.kind = .produce) ∧
      (result.success = true ↔ result.items.length = step.messages.length ∧
        ∀ item ∈ result.items, item.success = true) := by
  obtain ⟨-, ⟨fault, hend, -⟩ | ⟨schedule, -, hend, -⟩⟩ := w.runBatchProduce_cases settings step
  all_goals
    rw [h] at hend
    cases hend
  obtain ⟨hlawful, -, hsuccess⟩ := step.result_lawful w.now
    (w.cluster.performBy (w.cluster.prepare step.messagesToSend) schedule).1
  exact ⟨hlawful, rfl, fun item hitem => (step.mem_results w.now _ hitem).1,
    hsuccess.trans (and_iff_right (step.results_length w.now _)).symm⟩

theorem runBatchConsume_lawful {step : BatchConsumeStep} (hcount : 1 ≤ step.messageCount)
    (h : w.runBatchConsume settings step = (.ok result, w')) :
    result.Lawful ∧ result.kind = .batchConsume ∧ (∀ item ∈ result.items, item.kind = .consume) ∧
      (result.success = true ↔ result.items.length = step.messageCount ∧
        ∀ item ∈ result.items, item.success = true) := by
  obtain ⟨-, ⟨fault, hend, -⟩ | ⟨hend, -⟩⟩ := w.runBatchConsume_cases settings step
  all_goals
    rw [h] at hend
    cases hend
  obtain ⟨hle, hlt⟩ := w.cluster.drain_length
    (settings.broker.consumer step.groupId step.autoOffsetReset) step.topic step.messageCount.toNat
  generalize w.cluster.drain (settings.broker.consumer step.groupId step.autoOffsetReset)
    step.topic step.messageCount.toNat = drained at hle hlt ⊢
  have hfew : (drained.1.length : Int) ≤ step.messageCount := by omega
  have hfewer : drained.2.1 ≠ none → (drained.1.length : Int) < step.messageCount := by
    intro hwhy
    have hless := hlt hwhy
    omega
  obtain ⟨hlawful, -, hsuccess⟩ := step.result_lawful w.now hfew hfewer
  refine ⟨hlawful, rfl, fun item hitem => ?_, hsuccess⟩
  obtain ⟨m, -, rfl⟩ := List.mem_map.mp hitem
  exact (messageResult_fields w.now step.expectedType m).1

/-- Whatever the settings are and however the cluster and the endpoints behave, the result of a step
that returns keeps the laws, and its flag tells what happened. -/
theorem run_lawful {draft : StepDraft} {step : Step} (hbuild : draft.build = .ok step)
    (hrun : w.run settings step = (.ok result, w')) :
    result.Lawful ∧
    match step with
    | .http step =>
      let arrived := w.response? settings step
      result.kind = .http ∧
        (result.success = true ↔ ∃ r, arrived = some r ∧ 200 ≤ r.status ∧ r.status < 300) ∧
        (result.error = none ↔ ∃ r, arrived = some r) ∧
        ((∀ r, arrived = some r → r.status ≠ 0) →
          (result.statusCode = some 0 ↔ arrived = none))
    | .produce step =>
      result.kind = .produce ∧
        ∃ send outcome, w.cluster.prepare [encodeMessage step.topic step.headers step.jsonOptions
            step.partition step.timestamp step.key step.value] = [send] ∧
          (outcome = .late ∨ outcome = (w.cluster.perform send).1) ∧
          (result.success = true ↔
            ∃ report, outcome = .delivered report ∧ report.status = .persisted)
    | .consume _ => result.kind = .consume
    | .batchProduce step =>
      result.kind = .batchProduce ∧ (∀ item ∈ result.items, item.kind = .produce) ∧
        (result.success = true ↔ result.items.length = step.messages.length ∧
          ∀ item ∈ result.items, item.success = true)
    | .batchConsume step =>
      result.kind = .batchConsume ∧ (∀ item ∈ result.items, item.kind = .consume) ∧
        (result.success = true ↔ result.items.length = step.messageCount ∧
          ∀ item ∈ result.items, item.success = true) := by
  cases step with
  | http step => exact runHttp_lawful hrun
  | produce step => exact runProduce_lawful hrun
  | consume step => exact runConsume_lawful hrun
  | batchProduce step => exact runBatchProduce_lawful hrun
  | batchConsume step => exact runBatchConsume_lawful (StepDraft.build_batchConsume hbuild) hrun

/-- A world in which nothing is disturbed. -/
def calm (broker : Broker) : World :=
  { pool := .empty true
    cluster := ⟨broker, [], [], Binary64.ofNat 0, 1⟩
    web := ⟨[], fun _ => .unfinished, []⟩
    tokens := ⟨.empty, ⟨[], fun _ => .unfinished, []⟩, Binary64.ofNat 0⟩
    flawOf := fun _ => none
    now := ⟨0, none⟩
    suffix := fun _ => "" }

theorem run_batchConsume (w : World) (settings : Settings) (step : BatchConsumeStep) :
    w.run settings (.batchConsume step) = w.runBatchConsume settings step := rfl

/-- One message where two are asked for. -/
theorem run_lawful_shortfall :
    ∃ draft step result w', StepDraft.build draft = .ok step ∧
      (calm ((Broker.empty 1 .persisted 0).append
        ⟨"orders", none, some [97], [], none, none⟩).2).run {} step = (.ok result, w') ∧
      result.Lawful ∧ result.success = false ∧ result.items.length = 1 := by
  let step : BatchConsumeStep :=
    { topic := "orders", messageCount := 2, groupId := none, timeout := Binary64.ofNat 60
      expectedType := none, autoOffsetReset := .earliest, bootstrapServers := none, auth := none }
  let w := calm ((Broker.empty 1 .persisted 0).append
    ⟨"orders", none, some [97], [], none, none⟩).2
  have hbuild : StepDraft.build (.batchConsume { topic := .text "orders", messageCount := 2 }) =
      .ok (.batchConsume step) := rfl
  have hone : (w.cluster.drain (BrokerSettings.consumer {} none .earliest) "orders" 2).1.length =
      1 := by decide +kernel
  rcases hafter : w.runBatchConsume {} step with ⟨outcome, w'⟩
  obtain ⟨-, ⟨_, -, hnot, -⟩ | ⟨hok, -⟩⟩ := w.runBatchConsume_cases {} step
  · exact absurd ⟨rfl, rfl, .noAuth, rfl⟩ hnot
  · rw [hafter] at hok
    dsimp only at hok
    subst hok
    have hrun := w.run_batchConsume {} step
    rw [hafter] at hrun
    obtain ⟨hlawful, -, -, hsuccess⟩ := run_lawful hbuild hrun
    have hitems := fun why => (step.items_length w.now _ why).trans hone
    refine ⟨_, _, _, _, hbuild, hrun, hlawful, ?_, hitems _⟩
    rw [← Bool.not_eq_true, hsuccess]
    exact fun h => absurd ((congrArg Nat.cast (hitems _)).symm.trans h.1) (by decide)

end World

end Rehearsal
