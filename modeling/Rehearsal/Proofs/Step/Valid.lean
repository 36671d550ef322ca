import Rehearsal.Proofs.Number.Decimal
import Rehearsal.Proofs.Number.Rounding
import Rehearsal.Proofs.Scenario.Construction
import Rehearsal.Step.Same

/-! Valid steps. Some of what makes a step valid is looked at whenever the step is built, the rest by
the calls that write it; a step built of a vetted draft has both, and the draft of a valid step is
vetted again. -/

namespace Rehearsal

/-! What the checks of single fields ask. -/

theorem Binary64.atMost_zero {x : Binary64} {p : ℚ} (h : x.toRat? = some p) :
    x.atMost (ofNat 0) = true ↔ p ≤ 0 := by
  have hzero : (ofNat 0).toRat? = some 0 := by
    rw [show ofNat 0 = .finite false 0 leastExponent from rfl, toRat?_finite]
    simp [signed]
  rw [atMost, Bool.or_eq_true, less_iff h hzero, equal_iff h hzero, le_iff_lt_or_eq]

theorem Decimal.compare?_zero {d : Decimal} {p : ℚ} (h : d.toRat? = some p) :
    d.compare? (.ofInt 0) = some .lt ∨ d.compare? (.ofInt 0) = some .eq ↔ p ≤ 0 := by
  cases d with
  | nan => cases h
  | infinity negative => cases h
  | finite negative c e =>
    rw [toRat?_finite, Option.some.injEq] at h
    subst h
    have hten : (0 : ℚ) < 10 ^ e := zpow_pos (by norm_num) e
    rcases Nat.eq_zero_or_pos c with rfl | hc
    · simp [compare?, ofInt, Binary64.signed]
    · have hvalue : (0 : ℚ) < c * 10 ^ e := mul_pos (by exact_mod_cast hc) hten
      cases negative with
      | true => simp [compare?, ofInt, hc.ne', Binary64.signed, hvalue.le]
      | false => simp [compare?, ofInt, hc.ne', Binary64.signed, hvalue]

theorem Draft.seconds_iff (owner : String) (x : Binary64) :
    seconds owner (.float x) = .ok x ↔ x.atMost (Binary64.ofNat 0) = false := by
  have hseconds : seconds owner (.float x) = .ok x ↔
      ¬ ((Decimal.ofBinary64 x).compare? (.ofInt 0) = some .lt ∨
        (Decimal.ofBinary64 x).compare? (.ofInt 0) = some .eq) := by
    simp only [seconds, Value.number?]
    split <;> simp_all [Value.toFloat]
  rw [hseconds]
  cases x with
  | nan =>
    simp [Decimal.ofBinary64, Decimal.compare?, Binary64.atMost, Binary64.less, Binary64.equal,
      Binary64.compare?]
  | infinity negative => cases negative <;> decide
  | finite negative s e =>
    have hvalue := Binary64.toRat?_finite negative s e
    rw [Decimal.compare?_zero ((Decimal.toRat?_ofBinary64 _).trans hvalue),
      ← Binary64.atMost_zero hvalue, Bool.not_eq_true]

theorem Draft.topicName_ok {owner : String} {topic : Value} {name : String}
    (h : Draft.topicName owner topic = .ok name) : Text.isBlankText name = false := by
  simp only [Draft.topicName] at h
  split at h
  · cases h
  · rename_i hgood
    cases h
    rw [Bool.or_eq_true, not_or] at hgood
    exact Bool.eq_false_iff.mpr hgood.2

theorem checkPartition_iff (partition : Option Int) :
    checkPartition partition = .ok () ↔ ∀ n, partition = some n → 0 ≤ n := by
  cases partition with
  | none => simp [checkPartition]
  | some n =>
    by_cases hn : n < 0
    · simp [checkPartition, hn]
    · simp [checkPartition, hn, Int.not_lt.mp hn]

theorem MessageHeaders.entries_bytes (headers : MessageHeaders) :
    ∀ entry ∈ entries headers, entry.2 = .null ∨ ∃ bytes, entry.2 = .bytes bytes := by
  intro entry hentry
  obtain ⟨⟨name, bytes⟩, -, rfl⟩ := List.mem_map.mp hentry
  cases bytes with
  | none => exact .inl rfl
  | some bytes => exact .inr ⟨bytes, rfl⟩

/-! Steps. -/

structure HttpStep.Valid (step : HttpStep) : Prop where
  url : step.url ≠ ""
  timeout : step.timeout.atMost (Binary64.ofNat 0) = false
  auth : ∃ strategy, HttpStrategy.resolve step.auth = .ok strategy

/-- What is asked of every step with a broker. -/
structure Step.ValidWithBroker (topic : String) (timeout : Binary64)
    (auth : Option BrokerAuthConfig) : Prop where
  topic : Text.isBlankText topic = false
  timeout : timeout.atMost (Binary64.ofNat 0) = false
  auth : ∃ strategy, BrokerStrategy.resolve auth = .ok strategy

/-- What is asked of every step that sends messages. -/
structure Step.ValidSending (headers : MessageHeaders) (tuning : ProducerTuning)
    (jsonOptions : List (String × Value)) : Prop where
  headers : ∀ entry ∈ MessageHeaders.entries headers,
    entry.2 = .null ∨ ∃ bytes, entry.2 = .bytes bytes
  tuning : tuning.Valid
  jsonOptions : ∀ option ∈ jsonOptions, option.1 ∈ jsonOptionNames

structure ProduceStep.Valid (step : ProduceStep) : Prop extends
    Step.ValidWithBroker step.topic step.timeout step.auth,
    Step.ValidSending step.headers step.tuning step.jsonOptions where
  partition : ∀ n, step.partition = some n → 0 ≤ n

structure ConsumeStep.Valid (step : ConsumeStep) : Prop extends
    Step.ValidWithBroker step.topic step.timeout step.auth where
  autoOffsetReset : step.autoOffsetReset.text ∈ ["earliest", "latest"]

structure BatchProduceStep.Valid (step : BatchProduceStep) : Prop extends
    Step.ValidWithBroker step.topic step.timeout step.auth,
    Step.ValidSending step.headers step.tuning step.jsonOptions where
  messages : step.messages ≠ []

structure BatchConsumeStep.Valid (step : BatchConsumeStep) : Prop extends
    Step.ValidWithBroker step.topic step.timeout step.auth where
  messageCount : 1 ≤ step.messageCount
  autoOffsetReset : step.autoOffsetReset.text ∈ ["earliest", "latest"]

/-- Whether a step has passed every check, those of the calls that describe it included. -/
def Step.Valid : Step → Prop
  | .http step => step.Valid
  | .produce step => step.Valid
  | .consume step => step.Valid
  | .batchProduce step => step.Valid
  | .batchConsume step => step.Valid

theorem OffsetReset.text_known (reset : OffsetReset) : reset.text ∈ ["earliest", "latest"] := by
  cases reset <;> simp [text]

/-! A vetted draft builds valid steps. -/

theorem Step.ValidWithBroker.of_checks {owner topic : String} {given : Value} {x timeout : Binary64}
    {auth : Option BrokerAuthConfig} (htopic : Draft.topicName owner given = .ok topic)
    (hseconds : Draft.seconds owner (.float x) = .ok timeout)
    (hauth : ∃ strategy, BrokerStrategy.resolve auth = .ok strategy) :
    Step.ValidWithBroker topic timeout auth := by
  obtain rfl := Draft.seconds_float hseconds
  exact ⟨Draft.topicName_ok htopic, (Draft.seconds_iff _ _).mp hseconds, hauth⟩

theorem Step.ValidSending.of_checks {headers : MessageHeaders} {tuning : ProducerTuning}
    {options : List (String × Value)} (htuning : tuning.check = .ok tuning)
    (hoptions : unknownFields jsonOptionNames (options.map (·.1)) = []) :
    Step.ValidSending headers tuning options := by
  refine ⟨headers.entries_bytes, ((ProducerTuning.check_iff _ _).mp htuning).1, ?_⟩
  exact List.forall_mem_map.mp ((unknownFields_iff _ _).mp hoptions)

namespace StepDraft.Vetted

theorem http {d : HttpDraft} {step : HttpStep} (h : (StepDraft.http d).Vetted)
    (hbuild : d.build = .ok step) : step.Valid := by
  obtain ⟨x, htime⟩ := h.checked.1
  obtain ⟨text, hurl⟩ := h.url
  have hauth := h.httpAuth
  dsimp only [StepDraft.timeout, StepDraft.url, StepDraft.httpAuth] at htime hurl hauth
  rw [HttpDraft.build, hurl, htime] at hbuild
  split at hbuild
  · cases hbuild
  · rename_i hgiven
    obtain ⟨timeout, hseconds, hbuild⟩ := bind_eq_ok.mp hbuild
    cases hbuild
    obtain rfl := Draft.seconds_float hseconds
    refine ⟨?_, (Draft.seconds_iff _ _).mp hseconds, hauth⟩
    simpa [Value.truthy, Value.display] using hgiven

theorem produce {d : ProduceDraft} {step : ProduceStep} (h : (StepDraft.produce d).Vetted)
    (hbuild : d.build = .ok step) : step.Valid := by
  obtain ⟨⟨x, htime⟩, hauth⟩ := h.checked
  obtain ⟨topic, htopic, hbuild⟩ := bind_eq_ok.mp hbuild
  obtain ⟨_, hpartition, hbuild⟩ := bind_eq_ok.mp hbuild
  obtain ⟨headers, -, hbuild⟩ := bind_eq_ok.mp hbuild
  obtain ⟨timeout, hseconds, hbuild⟩ := bind_eq_ok.mp hbuild
  cases hbuild
  dsimp only [StepDraft.timeout] at htime
  rw [htime] at hseconds
  exact ⟨.of_checks htopic hseconds hauth, .of_checks h.tuning h.jsonOptions,
    (checkPartition_iff _).mp hpartition⟩

theorem consume {d : ConsumeDraft} {step : ConsumeStep} (h : (StepDraft.consume d).Vetted)
    (hbuild : d.build = .ok step) : step.Valid := by
  obtain ⟨⟨x, htime⟩, hauth⟩ := h.checked
  obtain ⟨topic, htopic, hbuild⟩ := bind_eq_ok.mp hbuild
  obtain ⟨reset, -, hbuild⟩ := bind_eq_ok.mp hbuild
  obtain ⟨timeout, hseconds, hbuild⟩ := bind_eq_ok.mp hbuild
  cases hbuild
  dsimp only [StepDraft.timeout] at htime
  rw [htime] at hseconds
  exact ⟨.of_checks htopic hseconds hauth, reset.text_known⟩

theorem batchProduce {d : BatchProduceDraft} {step : BatchProduceStep}
    (h : (StepDraft.batchProduce d).Vetted) (hbuild : d.build = .ok step) : step.Valid := by
  obtain ⟨⟨x, htime⟩, hauth⟩ := h.checked
  obtain ⟨topic, htopic, hbuild⟩ := bind_eq_ok.mp hbuild
  by_cases hempty : d.messages.isEmpty = true
  · rw [if_pos hempty] at hbuild
    cases hbuild
  · rw [if_neg hempty] at hbuild
    obtain ⟨headers, -, hbuild⟩ := bind_eq_ok.mp hbuild
    obtain ⟨timeout, hseconds, hbuild⟩ := bind_eq_ok.mp hbuild
    cases hbuild
    dsimp only [StepDraft.timeout] at htime
    rw [htime] at hseconds
    exact ⟨.of_checks htopic hseconds hauth, .of_checks h.tuning h.jsonOptions,
      fun hnone => hempty (List.isEmpty_iff.mpr hnone)⟩

theorem batchConsume {d : BatchConsumeDraft} {step : BatchConsumeStep}
    (h : (StepDraft.batchConsume d).Vetted) (hbuild : d.build = .ok step) : step.Valid := by
  obtain ⟨⟨x, htime⟩, hauth⟩ := h.checked
  obtain ⟨topic, htopic, hbuild⟩ := bind_eq_ok.mp hbuild
  by_cases hfew : d.messageCount < 1
  · rw [if_pos hfew] at hbuild
    cases hbuild
  · rw [if_neg hfew] at hbuild
    obtain ⟨reset, -, hbuild⟩ := bind_eq_ok.mp hbuild
    obtain ⟨timeout, hseconds, hbuild⟩ := bind_eq_ok.mp hbuild
    cases hbuild
    dsimp only [StepDraft.timeout] at htime
    rw [htime] at hseconds
    exact ⟨.of_checks htopic hseconds hauth, Int.not_lt.mp hfew, reset.text_known⟩

/-- Every step that a vetted draft builds is valid. -/
theorem valid {draft : StepDraft} {step : Step} (h : draft.Vetted)
    (hbuild : draft.build = .ok step) : step.Valid := by
  cases draft <;> obtain ⟨s, hs, rfl⟩ := map_eq_ok.mp hbuild
  · exact h.http hs
  · exact h.produce hs
  · exact h.consume hs
  · exact h.batchProduce hs
  · exact h.batchConsume hs

end StepDraft.Vetted

/-! The draft of a valid step is vetted, and checked changes leave it so. -/

theorem Step.Valid.vetted {step : Step} (h : step.Valid) : step.draft.Vetted := by
  have hnone : ∀ {options : List (String × Value)},
      (∀ option ∈ options, option.1 ∈ jsonOptionNames) →
        unknownFields jsonOptionNames (options.map (·.1)) = [] :=
    fun hoptions => (unknownFields_iff _ _).mpr (List.forall_mem_map.mpr hoptions)
  cases step with
  | http s => exact ⟨⟨⟨_, rfl⟩, .noAuth, rfl⟩, ⟨_, rfl⟩, h.auth, rfl, hnone nofun⟩
  | produce s =>
    exact ⟨⟨⟨_, rfl⟩, h.auth⟩, ⟨_, rfl⟩, ⟨.noAuth, rfl⟩,
      (ProducerTuning.check_iff _ _).mpr ⟨h.tuning, rfl⟩, hnone h.jsonOptions⟩
  | consume s => exact ⟨⟨⟨_, rfl⟩, h.auth⟩, ⟨_, rfl⟩, ⟨.noAuth, rfl⟩, rfl, hnone nofun⟩
  | batchProduce s =>
    exact ⟨⟨⟨_, rfl⟩, h.auth⟩, ⟨_, rfl⟩, ⟨.noAuth, rfl⟩,
      (ProducerTuning.check_iff _ _).mpr ⟨h.tuning, rfl⟩, hnone h.jsonOptions⟩
  | batchConsume s => exact ⟨⟨⟨_, rfl⟩, h.auth⟩, ⟨_, rfl⟩, ⟨.noAuth, rfl⟩, rfl, hnone nofun⟩

end Rehearsal
