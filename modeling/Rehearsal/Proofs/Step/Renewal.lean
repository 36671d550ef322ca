import Rehearsal.Proofs.Fallible
import Rehearsal.Scenario.Construction

/-! Steps built again from their own drafts. What a check lets through in its normal form it lets
through again as it is, so the draft of a step with a broker builds that very step; and since no
check looks at the authentication, a draft with another one builds the step with another one. -/

namespace Rehearsal

theorem Draft.topicName_text {owner : String} {topic : Value} {name : String}
    (h : Draft.topicName owner topic = .ok name) :
    Draft.topicName owner (.text name) = .ok name := by
  simp only [Draft.topicName] at h
  split at h
  · cases h
  · rename_i hgood
    cases h
    have hblank : Text.isBlankText topic.display = false := by
      cases hb : Text.isBlankText topic.display with
      | false => rfl
      | true => exact absurd (by simp [hb]) hgood
    -- a text that is not blank is not empty either
    have hne : topic.display ≠ "" := by
      intro hempty
      rw [hempty] at hblank
      cases hblank
    have hdisplay : (Value.text topic.display).display = topic.display := rfl
    simp [Draft.topicName, Value.truthy, hdisplay, hblank, hne]

theorem Draft.seconds_float {owner : String} {x y : Binary64}
    (h : Draft.seconds owner (.float x) = .ok y) : y = x := by
  simp only [Draft.seconds, Value.number?] at h
  split at h
  · cases h
  · cases h
  · cases h
    rfl

theorem Draft.messageHeaders_entries (headers : MessageHeaders) :
    Draft.messageHeaders (MessageHeaders.entries headers) = .ok headers := by
  simp only [Draft.messageHeaders, MessageHeaders.entries]
  induction headers with
  | nil => rfl
  | cons header rest ih =>
    obtain ⟨name, bytes⟩ := header
    have hbytes : Draft.headerBytes (Value.ofOption .bytes bytes) = .ok bytes := by
      cases bytes <;> rfl
    rw [List.map_cons, List.mapM_cons, hbytes, ih]
    rfl

theorem OffsetReset.ofValue_text (reset : OffsetReset) :
    OffsetReset.ofValue (.text reset.text) = .ok reset := by
  cases reset <;> rfl

variable {x : Binary64}

theorem ProduceDraft.build_draft {d : ProduceDraft} {step : ProduceStep}
    (htime : d.timeout = .float x)
    (h : d.build = .ok step) : step.draft.build = .ok step := by
  obtain ⟨topic, htopic, h⟩ := bind_eq_ok.mp h
  obtain ⟨_, hpartition, h⟩ := bind_eq_ok.mp h
  obtain ⟨headers, -, h⟩ := bind_eq_ok.mp h
  obtain ⟨timeout, hseconds, h⟩ := bind_eq_ok.mp h
  cases h
  rw [htime] at hseconds
  have hx := Draft.seconds_float hseconds
  subst hx
  simp only [ProduceStep.draft, ProduceDraft.build, Draft.topicName_text htopic, hpartition,
    Draft.messageHeaders_entries, hseconds, ok_bind]
  rfl

theorem ConsumeDraft.build_draft {d : ConsumeDraft} {step : ConsumeStep}
    (htime : d.timeout = .float x)
    (h : d.build = .ok step) : step.draft.build = .ok step := by
  obtain ⟨topic, htopic, h⟩ := bind_eq_ok.mp h
  obtain ⟨reset, -, h⟩ := bind_eq_ok.mp h
  obtain ⟨timeout, hseconds, h⟩ := bind_eq_ok.mp h
  cases h
  rw [htime] at hseconds
  have hx := Draft.seconds_float hseconds
  subst hx
  simp only [ConsumeStep.draft, ConsumeDraft.build, Draft.topicName_text htopic,
    OffsetReset.ofValue_text, hseconds, ok_bind]
  rfl

theorem BatchProduceDraft.build_draft {d : BatchProduceDraft} {step : BatchProduceStep}
    (htime : d.timeout = .float x) (h : d.build = .ok step) : step.draft.build = .ok step := by
  obtain ⟨topic, htopic, h⟩ := bind_eq_ok.mp h
  by_cases hempty : d.messages.isEmpty = true
  · rw [if_pos hempty] at h
    cases h
  · rw [if_neg hempty] at h
    obtain ⟨headers, -, h⟩ := bind_eq_ok.mp h
    obtain ⟨timeout, hseconds, h⟩ := bind_eq_ok.mp h
    cases h
    rw [htime] at hseconds
    have hx := Draft.seconds_float hseconds
    subst hx
    simp only [BatchProduceStep.draft, BatchProduceDraft.build, Draft.topicName_text htopic,
      if_neg hempty, Draft.messageHeaders_entries, hseconds, ok_bind]
    rfl

theorem BatchConsumeDraft.build_draft {d : BatchConsumeDraft} {step : BatchConsumeStep}
    (htime : d.timeout = .float x) (h : d.build = .ok step) : step.draft.build = .ok step := by
  obtain ⟨topic, htopic, h⟩ := bind_eq_ok.mp h
  by_cases hfew : d.messageCount < 1
  · rw [if_pos hfew] at h
    cases h
  · rw [if_neg hfew] at h
    obtain ⟨reset, -, h⟩ := bind_eq_ok.mp h
    obtain ⟨timeout, hseconds, h⟩ := bind_eq_ok.mp h
    cases h
    rw [htime] at hseconds
    have hx := Draft.seconds_float hseconds
    subst hx
    simp only [BatchConsumeStep.draft, BatchConsumeDraft.build, Draft.topicName_text htopic,
      if_neg hfew, OffsetReset.ofValue_text, hseconds, ok_bind]
    rfl

def StepDraft.timeout : StepDraft → Value
  | .http d => d.timeout
  | .produce d => d.timeout
  | .consume d => d.timeout
  | .batchProduce d => d.timeout
  | .batchConsume d => d.timeout

def StepDraft.brokerAuth : StepDraft → Option BrokerAuthConfig
  | .http _ => none
  | .produce d => d.auth
  | .consume d => d.auth
  | .batchProduce d => d.auth
  | .batchConsume d => d.auth

def StepDraft.url : StepDraft → Value
  | .http d => d.url
  | _ => .text ""

def StepDraft.httpAuth : StepDraft → Option HttpAuthConfig
  | .http d => d.auth
  | _ => none

def StepDraft.tuning : StepDraft → ProducerTuning
  | .produce d => d.tuning
  | .batchProduce d => d.tuning
  | _ => .plain

def StepDraft.jsonOptions : StepDraft → List (String × Value)
  | .produce d => d.jsonOptions
  | .batchProduce d => d.jsonOptions
  | _ => []

def Step.withBrokerAuth (config : Option BrokerAuthConfig) : Step → Step
  | .http s => .http s
  | .produce s => .produce { s with auth := config }
  | .consume s => .consume { s with auth := config }
  | .batchProduce s => .batchProduce { s with auth := config }
  | .batchConsume s => .batchConsume { s with auth := config }

/-- Whether a step, if it is one with a broker, is built again from its own draft. -/
def Step.Renewable (step : Step) : Prop :=
  step.variant ∈ Variant.brokerSteps → step.draft.build = .ok step

theorem StepDraft.build_renewable {draft : StepDraft} {step : Step}
    (htime : draft.timeout = .float x) (h : draft.build = .ok step) : step.Renewable := by
  intro hv
  cases draft with
  | http d =>
    obtain ⟨s, -, rfl⟩ := map_eq_ok.mp h
    simp [Step.variant, Variant.brokerSteps, Variant.produceSteps, Variant.consumeSteps] at hv
  | produce d =>
    obtain ⟨s, hs, rfl⟩ := map_eq_ok.mp h
    exact map_eq_ok.mpr ⟨s, ProduceDraft.build_draft htime hs, rfl⟩
  | consume d =>
    obtain ⟨s, hs, rfl⟩ := map_eq_ok.mp h
    exact map_eq_ok.mpr ⟨s, ConsumeDraft.build_draft htime hs, rfl⟩
  | batchProduce d =>
    obtain ⟨s, hs, rfl⟩ := map_eq_ok.mp h
    exact map_eq_ok.mpr ⟨s, BatchProduceDraft.build_draft htime hs, rfl⟩
  | batchConsume d =>
    obtain ⟨s, hs, rfl⟩ := map_eq_ok.mp h
    exact map_eq_ok.mpr ⟨s, BatchConsumeDraft.build_draft htime hs, rfl⟩

/-! A change writes a field or leaves it alone. -/

theorem StepDraft.timeout_set (draft : StepDraft) (change : StepChange) :
    (draft.set change).timeout = draft.timeout ∨
      change = .timeout (draft.set change).timeout := by
  cases draft <;> cases change <;> simp [set, timeout, StepChange.toHttp, StepChange.toProduce,
    StepChange.toConsume, StepChange.toBatchProduce, StepChange.toBatchConsume]

theorem StepDraft.brokerAuth_set (draft : StepDraft) (change : StepChange) :
    (draft.set change).brokerAuth = draft.brokerAuth ∨
      change = .brokerAuth (draft.set change).brokerAuth := by
  cases draft <;> cases change <;> simp [set, brokerAuth, StepChange.toHttp, StepChange.toProduce,
    StepChange.toConsume, StepChange.toBatchProduce, StepChange.toBatchConsume]

theorem StepDraft.url_set (draft : StepDraft) (change : StepChange) :
    (draft.set change).url = draft.url ∨ change = .url (draft.set change).url := by
  cases draft <;> cases change <;> simp [set, url, StepChange.toHttp]

theorem StepDraft.httpAuth_set (draft : StepDraft) (change : StepChange) :
    (draft.set change).httpAuth = draft.httpAuth ∨
      change = .httpAuth (draft.set change).httpAuth := by
  cases draft <;> cases change <;> simp [set, httpAuth, StepChange.toHttp]

theorem StepDraft.tuning_set (draft : StepDraft) (change : StepChange) :
    (draft.set change).tuning = draft.tuning ∨
      change = .tuning (draft.set change).tuning := by
  cases draft <;> cases change <;>
    simp [set, tuning, StepChange.toProduce, StepChange.toBatchProduce]

theorem StepDraft.jsonOptions_set (draft : StepDraft) (change : StepChange) :
    (draft.set change).jsonOptions = draft.jsonOptions ∨
      change = .jsonOptions (draft.set change).jsonOptions := by
  cases draft <;> cases change <;>
    simp [set, jsonOptions, StepChange.toProduce, StepChange.toBatchProduce]

/-! The authentication beside the checks. -/

theorem StepDraft.build_brokerAuth (draft : StepDraft) (config : Option BrokerAuthConfig) :
    (draft.set (.brokerAuth config)).build = draft.build.map (Step.withBrokerAuth config) := by
  -- the checks are the same on both sides, and each fails on both or on neither
  cases draft with
  | http d =>
    simp only [set, StepChange.toHttp, build]
    cases d.build <;> rfl
  | produce d =>
    simp only [set, StepChange.toProduce, build, ProduceDraft.build]
    cases Draft.topicName "ProduceStep" d.topic with
    | error => rfl
    | ok =>
      cases checkPartition d.partition with
      | error => rfl
      | ok =>
        cases Draft.messageHeaders d.headers with
        | error => rfl
        | ok => cases Draft.seconds "ProduceStep" d.timeout <;> rfl
  | consume d =>
    simp only [set, StepChange.toConsume, build, ConsumeDraft.build]
    cases Draft.topicName "ConsumeStep" d.topic with
    | error => rfl
    | ok =>
      cases OffsetReset.ofValue d.autoOffsetReset with
      | error => rfl
      | ok => cases Draft.seconds "ConsumeStep" d.timeout <;> rfl
  | batchProduce d =>
    simp only [set, StepChange.toBatchProduce, build, BatchProduceDraft.build]
    cases Draft.topicName "BatchProduceStep" d.topic with
    | error => rfl
    | ok =>
      by_cases hempty : d.messages.isEmpty = true
      · simp only [if_pos hempty]
        rfl
      · simp only [if_neg hempty]
        cases Draft.messageHeaders d.headers with
        | error => rfl
        | ok => cases Draft.seconds "BatchProduceStep" d.timeout <;> rfl
  | batchConsume d =>
    simp only [set, StepChange.toBatchConsume, build, BatchConsumeDraft.build]
    cases Draft.topicName "BatchConsumeStep" d.topic with
    | error => rfl
    | ok =>
      by_cases hfew : d.messageCount < 1
      · simp only [if_pos hfew]
        rfl
      · simp only [if_neg hfew]
        cases OffsetReset.ofValue d.autoOffsetReset with
        | error => rfl
        | ok => cases Draft.seconds "BatchConsumeStep" d.timeout <;> rfl

theorem StepDraft.brokerAuth_build {draft : StepDraft} {step : Step}
    (h : draft.build = .ok step) : step.brokerAuth = draft.brokerAuth := by
  have hset : draft.set (.brokerAuth draft.brokerAuth) = draft := by
    cases draft <;> rfl
  have hbuild := draft.build_brokerAuth draft.brokerAuth
  rw [hset, h] at hbuild
  have hstep : step = step.withBrokerAuth draft.brokerAuth := Except.ok.inj hbuild
  cases draft with
  | http d =>
    obtain ⟨s, -, rfl⟩ := map_eq_ok.mp h
    rfl
  | _ =>
    obtain ⟨s, -, rfl⟩ := map_eq_ok.mp h
    rw [hstep]
    rfl

theorem Step.timeout_draft (step : Step) : ∃ x, step.draft.timeout = .float x := by
  cases step <;> exact ⟨_, rfl⟩

theorem Step.brokerAuth_draft (step : Step) : step.draft.brokerAuth = step.brokerAuth := by
  cases step <;> rfl

theorem Step.variant_withBrokerAuth (step : Step) (config : Option BrokerAuthConfig) :
    (step.withBrokerAuth config).variant = step.variant := by
  cases step <;> rfl

theorem Step.withBrokerAuth_again (step : Step) (config other : Option BrokerAuthConfig) :
    (step.withBrokerAuth other).withBrokerAuth config = step.withBrokerAuth config := by
  cases step <;> rfl

theorem Step.brokerAuth_withBrokerAuth {step : Step} (h : step.variant ∈ Variant.brokerSteps)
    (config : Option BrokerAuthConfig) : (step.withBrokerAuth config).brokerAuth = config := by
  cases step with
  | http s =>
    simp [variant, Variant.brokerSteps, Variant.produceSteps, Variant.consumeSteps] at h
  | _ => rfl

theorem unknownFields_iff (fields names : List String) :
    unknownFields fields names = [] ↔ ∀ name ∈ names, name ∈ fields := by
  constructor
  · intro h name hname
    refine Decidable.byContradiction fun hnot => ?_
    have hkept : name ∈ names.filter fun name => !fields.contains name := by
      simpa [hname] using hnot
    have hlisted : name ∈ unknownFields fields names :=
      List.mem_mergeSort.mpr (List.mem_eraseDups.mpr hkept)
    rw [h] at hlisted
    cases hlisted
  · intro h
    have hnone : (names.filter fun name => !fields.contains name) = [] := by
      simpa [List.filter_eq_nil_iff] using h
    rw [unknownFields, hnone]
    simp

theorem refuseUnknown_known {owner : String} {fields names : List String}
    (h : ∀ name ∈ names, name ∈ fields) : refuseUnknown owner fields names = .ok () := by
  rw [refuseUnknown, (unknownFields_iff fields names).mpr h]

theorem Step.build_of_evolve {step new : Step} {changes : List StepChange}
    (h : step.evolve changes = .ok new) : (step.draft.setAll changes).build = .ok new := by
  simp only [evolve] at h
  split at h
  · cases h
  · exact h

theorem Step.evolve_brokerAuth {step : Step} (hv : step.variant ∈ Variant.brokerSteps)
    (h : step.Renewable) (config : Option BrokerAuthConfig) :
    step.evolve [.brokerAuth config] = .ok (step.withBrokerAuth config) := by
  have hknown : refuseUnknown step.variant.name step.variant.fieldNames
      ([StepChange.brokerAuth config].map (·.name)) = .ok () := by
    apply refuseUnknown_known
    cases step <;> simp [variant, Variant.fieldNames, StepChange.name]
  have hbuild : (step.draft.setAll [.brokerAuth config]).build =
      .ok (step.withBrokerAuth config) := by
    rw [StepDraft.setAll, List.foldl_cons, List.foldl_nil, StepDraft.build_brokerAuth, h hv]
    rfl
  rw [evolve, hknown]
  exact hbuild

end Rehearsal
