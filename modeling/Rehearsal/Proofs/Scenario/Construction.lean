import Rehearsal.Proofs.Step.Renewal
import Rehearsal.Proofs.Step.Tuning

/-! What the calls that describe a step can do. A call that succeeds finds the scenario building and
changes nothing but the step under description and the properties; a verb or a modifier changes the
step into another one of its kind, and has checked whatever it writes that building a step does not
look at; a completed scenario refuses every call whose arguments some scenario would accept. -/

namespace Rehearsal

/-- Whether a call begins a step, or chooses the topic of one. -/
def Construction.isEntry : Construction → Bool
  | .apiResource _ => true
  | .topic _ => true
  | .produce _ => true
  | .consume => true
  | .produceBatch _ => true
  | .consumeBatch _ => true
  | _ => false

/-- Whether a call can be made: some scenario takes it. -/
def Construction.Acceptable (c : Construction) : Prop :=
  ∃ e e' : Engine, e.construct c = .ok e'

/-- Whether a change holds what a call has looked at: an address in a text, a timeout in seconds, an
authentication that resolves, options that there are. A tuning is looked at where a setting of it is
changed; one that the call hands over is taken as it is. -/
def StepChange.Checked (c : Construction) : StepChange → Prop
  | .url given => ∃ text, given = .text text
  | .timeout given => ∃ x, given = .float x
  | .httpAuth config => ∃ strategy, HttpStrategy.resolve config = .ok strategy
  | .brokerAuth config => ∃ strategy, BrokerStrategy.resolve config = .ok strategy
  | .tuning settings => settings.check = .ok settings ∨ c = .tuning settings
  | .jsonOptions options => unknownFields jsonOptionNames (options.map (·.1)) = []
  | _ => True

/-- Whether a draft has its timeout in seconds and an authentication that resolves. -/
def StepDraft.Checked (draft : StepDraft) : Prop :=
  (∃ x, draft.timeout = .float x) ∧
    ∃ strategy, BrokerStrategy.resolve draft.brokerAuth = .ok strategy

/-- Whether a checked draft also has in order what building it does not look at: the address of a
request is a text and its authentication resolves, the tuning of a producer passes its check, and
there are the options by which JSON is written. -/
structure StepDraft.Vetted (draft : StepDraft) : Prop where
  checked : draft.Checked
  url : ∃ text, draft.url = .text text
  httpAuth : ∃ strategy, HttpStrategy.resolve draft.httpAuth = .ok strategy
  tuning : draft.tuning.check = .ok draft.tuning
  jsonOptions : unknownFields jsonOptionNames (draft.jsonOptions.map (·.1)) = []

theorem StepDraft.variant_set (draft : StepDraft) (change : StepChange) :
    (draft.set change).variant = draft.variant := by
  cases draft <;> rfl

theorem StepDraft.variant_setAll (draft : StepDraft) (changes : List StepChange) :
    (draft.setAll changes).variant = draft.variant := by
  induction changes generalizing draft with
  | nil => rfl
  | cons change rest ih => exact (ih (draft.set change)).trans (draft.variant_set change)

theorem StepDraft.variant_build {draft : StepDraft} {step : Step} (h : draft.build = .ok step) :
    step.variant = draft.variant := by
  cases draft <;> obtain ⟨s, -, rfl⟩ := map_eq_ok.mp h <;> rfl

theorem Step.variant_draft (step : Step) : step.draft.variant = step.variant := by
  cases step <;> rfl

theorem Step.variant_evolve {step new : Step} {changes : List StepChange}
    (h : step.evolve changes = .ok new) : new.variant = step.variant := by
  rw [StepDraft.variant_build (Step.build_of_evolve h), StepDraft.variant_setAll,
    Step.variant_draft]

namespace Engine

variable {e e' : Engine} {operation : String} {accepted : List Variant}

def redescribe (e : Engine) (current : Option Step) (properties : Properties) : Engine :=
  { e with current := current, context := { e.context with properties := properties } }

theorem setStep_eq_redescribe (e : Engine) (step : Step) :
    e.setStep step = e.redescribe (some step) e.context.properties := rfl

theorem checkBuilding_ok (h : e.checkBuilding operation = .ok ()) : e.stage = .building := by
  simp only [checkBuilding] at h
  split at h
  · assumption
  · cases h
  · cases h

theorem require_ok {step : Step} (h : e.require operation accepted = .ok step) :
    e.stage = .building ∧ e.current = some step ∧ step.variant ∈ accepted := by
  simp only [require] at h
  obtain ⟨_, hb, h⟩ := bind_eq_ok.mp h
  cases hc : e.current with
  | none =>
    rw [hc] at h
    cases h
  | some found =>
    rw [hc] at h
    dsimp only at h
    split at h
    · rename_i hv
      cases h
      exact ⟨checkBuilding_ok hb, rfl, by simpa using hv⟩
    · cases h

theorem require_of (hb : e.stage = .building) {step : Step} (hc : e.current = some step)
    (hv : step.variant ∈ accepted) (operation : String) :
    e.require operation accepted = .ok step := by
  have hcheck : e.checkBuilding operation = .ok () := by simp only [checkBuilding, hb]
  rw [require, hcheck, ok_bind, hc]
  exact if_pos (by simpa using hv)

theorem evolve_ok {changes : List StepChange}
    (h : e.evolve operation accepted changes = .ok e') :
    ∃ old new, e.require operation accepted = .ok old ∧ old.evolve changes = .ok new ∧
      e' = e.setStep new := by
  simp only [evolve] at h
  obtain ⟨old, hold, h⟩ := bind_eq_ok.mp h
  obtain ⟨new, hnew, h⟩ := bind_eq_ok.mp h
  cases h
  exact ⟨old, new, hold, hnew, rfl⟩

/-- Whether one scenario follows from another by a change of fields of the step. -/
def Evolves (e e' : Engine) : Prop :=
  ∃ operation accepted changes, e.evolve operation accepted changes = .ok e'

/-- Whether a call makes one scenario of another by checked changes of fields of the step. -/
def Amends (c : Construction) (e e' : Engine) : Prop :=
  ∃ operation accepted changes, (∀ change ∈ changes, StepChange.Checked c change) ∧
    e.evolve operation accepted changes = .ok e'

theorem amends_one {c : Construction} {change : StepChange}
    (h : e.evolve operation accepted [change] = .ok e') (hchange : change.Checked c) :
    Amends c e e' :=
  ⟨operation, accepted, [change], List.forall_mem_singleton.mpr hchange, h⟩

theorem setHttpAuth_amends {c : Construction} {config : Option HttpAuthConfig}
    (h : e.setHttpAuth operation config = .ok e') : Amends c e e' := by
  simp only [setHttpAuth] at h
  obtain ⟨_, -, h⟩ := bind_eq_ok.mp h
  obtain ⟨strategy, hmade, h⟩ := bind_eq_ok.mp h
  exact amends_one h ⟨strategy, hmade⟩

theorem setBrokerAuth_amends {c : Construction} {config : Option BrokerAuthConfig}
    (h : e.setBrokerAuth operation config = .ok e') : Amends c e e' := by
  simp only [setBrokerAuth] at h
  obtain ⟨_, -, h⟩ := bind_eq_ok.mp h
  obtain ⟨strategy, hmade, h⟩ := bind_eq_ok.mp h
  exact amends_one h ⟨strategy, hmade⟩

theorem construct_bootstrapServers (e : Engine) {servers : String} (h : servers ≠ "") :
    e.construct (.bootstrapServers servers) = e.evolve "with_bootstrap_servers"
      Variant.brokerSteps [.bootstrapServers (some servers)] := by
  simp only [construct]

theorem construct_groupId (e : Engine) {text : String} (h : text ≠ "") :
    e.construct (.groupId text) =
      e.evolve "with_group_id" Variant.consumeSteps [.groupId (some text)] := by
  simp only [construct]

/-- A verb or a modifier that succeeds ends in checked changes of fields of the step. -/
theorem construct_amends {c : Construction} (hc : c.isEntry = false)
    (h : e.construct c = .ok e') : Amends c e e' := by
  -- what is checked is what a call resolves or converts before it changes a field
  cases c with
  | apiResource path => cases hc
  | topic name => cases hc
  | produce args => cases hc
  | consume => cases hc
  | produceBatch messages => cases hc
  | consumeBatch count => cases hc
  | verb method body => exact ⟨_, _, _, by simp [StepChange.Checked], h⟩
  | timeout seconds =>
    obtain ⟨made, -, h⟩ := bind_eq_ok.mp h
    exact amends_one h ⟨made, rfl⟩
  | header name value =>
    obtain ⟨_, -, h⟩ := bind_eq_ok.mp h
    exact amends_one h trivial
  | headers pairs =>
    obtain ⟨_, -, h⟩ := bind_eq_ok.mp h
    exact amends_one h trivial
  | queryParam name value =>
    obtain ⟨step, hstep, h⟩ := bind_eq_ok.mp h
    obtain ⟨-, -, hv⟩ := require_ok hstep
    cases step with
    | http s => exact amends_one h trivial
    | _ => simp [Step.variant] at hv
  | httpAuth operation config => exact setHttpAuth_amends h
  | apiKey value name location =>
    obtain ⟨_, -, h⟩ := bind_eq_ok.mp h
    exact setHttpAuth_amends h
  | customHeader name value =>
    obtain ⟨_, -, h⟩ := bind_eq_ok.mp h
    exact setHttpAuth_amends h
  | customHeaders headers =>
    obtain ⟨_, -, h⟩ := bind_eq_ok.mp h
    exact setHttpAuth_amends h
  | oauth2 given =>
    simp only [construct, setOAuth2] at h
    split at h
    · cases h
    · exact setHttpAuth_amends h
  | bootstrapServers servers =>
    by_cases hs : servers = ""
    · subst hs
      cases h
    · rw [construct_bootstrapServers e hs] at h
      exact amends_one h trivial
  | brokerAuth operation config => exact setBrokerAuth_amends h
  | sasl mechanism auth =>
    obtain ⟨_, -, h⟩ := bind_eq_ok.mp h
    exact setBrokerAuth_amends h
  | ssl auth =>
    obtain ⟨_, -, h⟩ := bind_eq_ok.mp h
    exact setBrokerAuth_amends h
  | key value => exact amends_one h trivial
  | partition number => exact amends_one h trivial
  | timestamp time =>
    obtain ⟨_, -, h⟩ := bind_eq_ok.mp h
    exact amends_one h trivial
  | tune change =>
    obtain ⟨_, -, h⟩ := bind_eq_ok.mp h
    obtain ⟨made, hmade, h⟩ := bind_eq_ok.mp h
    obtain ⟨hvalid, rfl⟩ := (ProducerTuning.check_iff _ _).mp hmade
    exact amends_one h (.inl ((ProducerTuning.check_iff _ _).mpr ⟨hvalid, rfl⟩))
  | tuning settings => exact amends_one h (.inr rfl)
  | jsonOptions options =>
    simp only [construct, setJsonOptions] at h
    split at h
    · rename_i hknown
      exact amends_one h hknown
    · cases h
  | groupId text =>
    by_cases ht : text = ""
    · subst ht
      cases h
    · rw [construct_groupId e ht] at h
      exact amends_one h trivial
  | expectedType kind => exact amends_one h trivial
  | autoOffsetReset value => exact amends_one h trivial

theorem construct_evolves {c : Construction} (hc : c.isEntry = false)
    (h : e.construct c = .ok e') : e.Evolves e' := by
  obtain ⟨operation, accepted, changes, -, hevolve⟩ := construct_amends hc h
  exact ⟨operation, accepted, changes, hevolve⟩

theorem Evolves.redescribes (h : e.Evolves e') :
    e.stage = .building ∧ ∃ old new, e.current = some old ∧ new.variant = old.variant ∧
      e' = e.redescribe (some new) e.context.properties := by
  obtain ⟨operation, accepted, changes, h⟩ := h
  obtain ⟨old, new, hold, hnew, rfl⟩ := evolve_ok h
  obtain ⟨hb, hc, -⟩ := require_ok hold
  exact ⟨hb, old, new, hc, Step.variant_evolve hnew, setStep_eq_redescribe e new⟩

theorem start_redescribes {draft : StepDraft} (h : e.start draft = .ok e') :
    ∃ step, e' = e.redescribe (some step) e.context.properties := by
  obtain ⟨step, -, rfl⟩ := map_eq_ok.mp h
  exact ⟨step, setStep_eq_redescribe e step⟩

theorem vetted_default {draft : StepDraft} {x : Binary64} {text : String}
    (htime : draft.timeout = .float x) (hurl : draft.url = .text text)
    (hhttp : draft.httpAuth = none) (hbroker : draft.brokerAuth = none)
    (htuning : draft.tuning = .plain) (hjson : draft.jsonOptions = []) : draft.Vetted where
  checked := ⟨⟨x, htime⟩, .noAuth, by rw [hbroker]; rfl⟩
  url := ⟨text, hurl⟩
  httpAuth := ⟨.noAuth, by rw [hhttp]; rfl⟩
  tuning := by rw [htuning]; rfl
  jsonOptions := by rw [hjson]; simp [unknownFields]

theorem construct_begins {c : Construction} (hc : c.isEntry = true) (h : e.construct c = .ok e') :
    e.stage = .building ∧ ((∃ draft : StepDraft, draft.Vetted ∧ e.start draft = .ok e') ∨
      ∃ properties, e' = e.redescribe e.current properties) := by
  cases c with
  | apiResource path =>
    obtain ⟨_, hb, h⟩ := bind_eq_ok.mp h
    refine ⟨checkBuilding_ok hb, ?_⟩
    by_cases hp : path = ""
    · rw [if_pos hp] at h
      cases h
    · rw [if_neg hp] at h
      obtain ⟨_, -, h⟩ := bind_eq_ok.mp h
      exact .inl ⟨_, vetted_default rfl rfl rfl rfl rfl rfl, h⟩
  | topic name =>
    obtain ⟨_, hb, h⟩ := bind_eq_ok.mp h
    refine ⟨checkBuilding_ok hb, .inr ⟨(e.context.set "topic" name).properties, ?_⟩⟩
    split at h
    · cases h
    · cases h
      rfl
  | produce args =>
    have hstart : ∀ {key value}, e.startProduce key value = .ok e' → e.stage = .building ∧
        ((∃ draft : StepDraft, draft.Vetted ∧ e.start draft = .ok e') ∨
          ∃ properties, e' = e.redescribe e.current properties) := by
      intro key value h
      obtain ⟨_, hb, h⟩ := bind_eq_ok.mp h
      obtain ⟨_, -, h⟩ := bind_eq_ok.mp h
      exact ⟨checkBuilding_ok hb, .inl ⟨_, vetted_default rfl rfl rfl rfl rfl rfl, h⟩⟩
    match args with
    | [] => cases h
    | [value] => exact hstart h
    | [key, value] => exact hstart h
    | _ :: _ :: _ :: _ => cases h
  | consume =>
    obtain ⟨_, hb, h⟩ := bind_eq_ok.mp h
    obtain ⟨_, -, h⟩ := bind_eq_ok.mp h
    exact ⟨checkBuilding_ok hb, .inl ⟨_, vetted_default rfl rfl rfl rfl rfl rfl, h⟩⟩
  | produceBatch messages =>
    obtain ⟨_, hb, h⟩ := bind_eq_ok.mp h
    obtain ⟨_, -, h⟩ := bind_eq_ok.mp h
    obtain ⟨_, -, h⟩ := bind_eq_ok.mp h
    exact ⟨checkBuilding_ok hb, .inl ⟨_, vetted_default rfl rfl rfl rfl rfl rfl, h⟩⟩
  | consumeBatch count =>
    obtain ⟨_, hb, h⟩ := bind_eq_ok.mp h
    obtain ⟨_, -, h⟩ := bind_eq_ok.mp h
    exact ⟨checkBuilding_ok hb, .inl ⟨_, vetted_default rfl rfl rfl rfl rfl rfl, h⟩⟩
  | _ => cases hc

theorem construct_entry {c : Construction} (hc : c.isEntry = true) (h : e.construct c = .ok e') :
    e.stage = .building ∧ ∃ current properties, e' = e.redescribe current properties := by
  obtain ⟨hb, ⟨draft, -, hstart⟩ | ⟨properties, rfl⟩⟩ := construct_begins hc h
  · obtain ⟨step, rfl⟩ := start_redescribes hstart
    exact ⟨hb, _, _, rfl⟩
  · exact ⟨hb, _, _, rfl⟩

theorem construct_redescribes {c : Construction} (h : e.construct c = .ok e') :
    e.stage = .building ∧ ∃ current properties, e' = e.redescribe current properties := by
  cases hc : c.isEntry with
  | true => exact construct_entry hc h
  | false =>
    obtain ⟨hb, _, new, -, -, rfl⟩ := (construct_evolves hc h).redescribes
    exact ⟨hb, _, _, rfl⟩

theorem construct_variant {c : Construction} (hc : c.isEntry = false)
    (h : e.construct c = .ok e') :
    e'.current.map Step.variant = e.current.map Step.variant := by
  obtain ⟨-, old, new, hold, hv, rfl⟩ := (construct_evolves hc h).redescribes
  simp only [redescribe, hold, Option.map_some, hv]

/-! A completed scenario. -/

/-- Whether a call is refused because the step is completed. -/
def Refused (outcome : Except Fault Engine) : Prop :=
  ∃ operation, outcome = .error (.scenarioState (.completed operation))

theorem checkBuilding_completed (h : e.stage = .completed) (operation : String) :
    e.checkBuilding operation = .error (.scenarioState (.completed operation)) := by
  simp only [checkBuilding, h]

theorem refused_after_check (h : e.stage = .completed) (operation : String)
    (f : Unit → Except Fault Engine) : Refused (e.checkBuilding operation >>= f) :=
  ⟨operation, by rw [checkBuilding_completed h, error_bind]⟩

theorem require_completed (h : e.stage = .completed) (operation : String)
    (accepted : List Variant) :
    e.require operation accepted = .error (.scenarioState (.completed operation)) := by
  rw [require, checkBuilding_completed h, error_bind]

theorem refused_after_require (h : e.stage = .completed) (operation : String)
    (accepted : List Variant) (f : Step → Except Fault Engine) :
    Refused (e.require operation accepted >>= f) :=
  ⟨operation, by rw [require_completed h, error_bind]⟩

theorem refused_evolve (h : e.stage = .completed) (operation : String) (accepted : List Variant)
    (changes : List StepChange) : Refused (e.evolve operation accepted changes) :=
  refused_after_require h operation accepted _

theorem refused_setHttpAuth (h : e.stage = .completed) (operation : String)
    (config : Option HttpAuthConfig) : Refused (e.setHttpAuth operation config) :=
  refused_after_require h operation _ _

theorem refused_setBrokerAuth (h : e.stage = .completed) (operation : String)
    (config : Option BrokerAuthConfig) : Refused (e.setBrokerAuth operation config) :=
  refused_after_require h operation _ _

/-- What is read of the arguments before the state of the scenario is looked at is read in every
scenario alike, so a call that some scenario takes gets as far as that. -/
theorem construct_completed {c : Construction} (h : e.stage = .completed) (hc : c.Acceptable) :
    Refused (e.construct c) := by
  -- `hd` says that the conversion of the arguments succeeds, where there is one
  obtain ⟨d, d', hd⟩ := hc
  cases c with
  | apiResource path => exact refused_after_check h _ _
  | topic name => exact refused_after_check h _ _
  | produce args =>
    match args with
    | [] => cases hd
    | [value] => exact refused_after_check h _ _
    | [key, value] => exact refused_after_check h _ _
    | _ :: _ :: _ :: _ => cases hd
  | consume => exact refused_after_check h _ _
  | produceBatch messages => exact refused_after_check h _ _
  | consumeBatch count => exact refused_after_check h _ _
  | verb method body => exact refused_evolve h _ _ _
  | timeout seconds =>
    obtain ⟨made, hmade, -⟩ := bind_eq_ok.mp hd
    simp only [construct, hmade, ok_bind]
    exact refused_evolve h _ _ _
  | header name value => exact refused_after_require h _ _ _
  | headers pairs => exact refused_after_require h _ _ _
  | queryParam name value => exact refused_after_require h _ _ _
  | httpAuth operation config => exact refused_setHttpAuth h _ _
  | apiKey value name location =>
    obtain ⟨made, hmade, -⟩ := bind_eq_ok.mp hd
    simp only [construct, hmade, ok_bind]
    exact refused_setHttpAuth h _ _
  | customHeader name value => exact refused_after_require h _ _ _
  | customHeaders headers =>
    obtain ⟨made, hmade, -⟩ := bind_eq_ok.mp hd
    simp only [construct, hmade, ok_bind]
    exact refused_setHttpAuth h _ _
  | oauth2 given =>
    simp only [construct, setOAuth2] at hd ⊢
    split at hd
    · cases hd
    · exact refused_setHttpAuth h _ _
  | bootstrapServers servers =>
    by_cases hs : servers = ""
    · subst hs
      cases hd
    · rw [construct_bootstrapServers e hs]
      exact refused_evolve h _ _ _
  | brokerAuth operation config => exact refused_setBrokerAuth h _ _
  | sasl mechanism auth => exact refused_after_require h _ _ _
  | ssl auth => exact refused_after_require h _ _ _
  | key value => exact refused_evolve h _ _ _
  | partition number => exact refused_evolve h _ _ _
  | timestamp time =>
    obtain ⟨made, hmade, -⟩ := bind_eq_ok.mp hd
    simp only [construct, hmade, ok_bind]
    exact refused_evolve h _ _ _
  | tune change => exact refused_after_require h _ _ _
  | tuning settings => exact refused_evolve h _ _ _
  | jsonOptions options =>
    simp only [construct, setJsonOptions] at hd ⊢
    split at hd
    · exact refused_evolve h _ _ _
    · cases hd
  | groupId text =>
    by_cases ht : text = ""
    · subst ht
      cases hd
    · rw [construct_groupId e ht]
      exact refused_evolve h _ _ _
  | expectedType kind => exact refused_evolve h _ _ _
  | autoOffsetReset value => exact refused_evolve h _ _ _

end Engine

end Rehearsal
