import Rehearsal.Proofs.Scenario.HeaderCalls
import Rehearsal.Proofs.Step.Settings

/-! Calls that modify a step which sends a message. Each operation writes one setting, and a call
that is accepted alone is accepted after any others that are. So a row of such calls leaves in each
setting what the last call of its operation has written, in whatever order the operations come. -/

namespace Rehearsal

open ProduceStep (Setting)

/-- A call of an operation that writes one setting of a step that sends a message. -/
inductive Modifier where
  | timeout (seconds : Value)
  | key (value : Value)
  | partition (number : Option Int)
  | timestamp (time : Value)
  | bootstrapServers (servers : String)
  | brokerAuth (config : Option BrokerAuthConfig)
  | jsonOptions (options : List (String × Value))
  | headers (pairs : List (Value × Value))
  | tune (change : TuningChange)

def TuningChange.setting : TuningChange → Setting
  | .compression _ => .compression
  | .acks _ => .acks
  | .batchSize _ => .batchSize
  | .linger _ => .linger
  | .retries _ => .retries
  | .idempotence _ => .idempotence

def TuningChange.content : (change : TuningChange) → change.setting.Content
  | .compression v => v
  | .acks v => Value.text v.display
  | .batchSize v => v
  | .linger v => lingerMillis v
  | .retries v => v
  | .idempotence v => v

namespace Modifier

def construction : Modifier → Construction
  | timeout v => .timeout v
  | key v => .key v
  | partition n => .partition n
  | timestamp v => .timestamp v
  | bootstrapServers servers => .bootstrapServers servers
  | brokerAuth config => .brokerAuth "with_broker_auth" config
  | jsonOptions options => .jsonOptions options
  | headers pairs => .headers pairs
  | tune change => .tune change

def setting : Modifier → Setting
  | timeout _ => .timeout
  | key _ => .key
  | partition _ => .partition
  | timestamp _ => .timestamp
  | bootstrapServers _ => .bootstrapServers
  | brokerAuth _ => .auth
  | jsonOptions _ => .jsonOptions
  | headers _ => .headers
  | tune change => change.setting

/-- What a call writes, if its argument can be read. -/
def content : (m : Modifier) → Except Fault m.setting.Content
  | timeout v => Construction.seconds v
  | key v => .ok v
  | partition n => .ok n
  | timestamp v => Construction.time v
  | bootstrapServers servers => .ok (some servers)
  | brokerAuth config => .ok config
  | jsonOptions options => .ok options
  | headers pairs => Draft.messageHeaders pairs
  | tune change => .ok change.content

/-- The last of some calls whose operation writes a setting. -/
def last? (calls : List Modifier) (f : Setting) : Option Modifier :=
  (calls.filter (·.setting = f)).getLast?

/-- Whether a call alone is accepted: its argument can be read, and the step that comes of it is fit
in all that is looked at. -/
structure Suits (m : Modifier) (s : ProduceStep) (content : m.setting.Content) : Prop where
  reads : m.content = .ok content
  topic : Draft.topicName "ProduceStep" (.text s.topic) = .ok s.topic
  checked : ∀ f, m.setting.CheckedWith f → f.Accepts ((s.put m.setting content).settings f)

variable {m n : Modifier} {calls others : List Modifier} {f : Setting} {s : ProduceStep}
  {content : m.setting.Content}

theorem Suits.passes (h : m.Suits s content) : (s.put m.setting content).Passes :=
  ⟨h.topic, h.checked .partition (.inr (.inr (.inl rfl))), h.checked .timeout (.inr (.inl rfl))⟩

theorem Suits.accepts (h : m.Suits s content) : m.setting.Accepts content := by
  have hown := h.checked m.setting (.inl rfl)
  rwa [ProduceStep.settings_put, Function.update_self] at hown

theorem Suits.after (h : m.Suits s content) {other : n.setting.Content} (hother : n.Suits s other) :
    n.Suits (s.put m.setting content) other := by
  refine ⟨hother.reads, hother.topic, fun f hf => ?_⟩
  have hfit := hother.checked f hf
  rw [ProduceStep.settings_put] at hfit ⊢
  by_cases hn : f = n.setting
  · subst hn
    rw [Function.update_self] at hfit ⊢
    exact hfit
  rw [Function.update_of_ne hn] at hfit ⊢
  rw [ProduceStep.settings_put]
  by_cases hm : f = m.setting
  · subst hm
    rw [Function.update_self]
    exact h.accepts
  · rwa [Function.update_of_ne hm]

theorem suits_plain (hm : m.setting.isTuning = false) :
    m.Suits s content ↔ m.content = .ok content ∧ (s.put m.setting content).Passes ∧
      m.setting.Accepts content := by
  refine ⟨fun h => ⟨h.reads, h.passes, h.accepts⟩, fun ⟨hreads, hpasses, haccepts⟩ =>
    ⟨hreads, hpasses.topic, fun f hf => ?_⟩⟩
  rcases hf with rfl | rfl | rfl | ⟨htuning, -⟩
  · rwa [ProduceStep.settings_put, Function.update_self]
  · exact hpasses.timeout
  · exact hpasses.partition
  · rw [hm] at htuning
    cases htuning

theorem not_suits {fault : Fault} (h : m.content = .error fault) : ¬m.Suits s content := by
  intro hsuits
  exact nomatch h.symm.trans hsuits.reads

theorem not_suits_of_refused {own : m.setting.Content} (h : m.content = .ok own)
    (hrefused : ¬m.setting.Accepts own) : ¬m.Suits s content := by
  intro hsuits
  obtain rfl : own = content := Except.ok.inj (h.symm.trans hsuits.reads)
  exact hrefused hsuits.accepts

theorem last?_cons (m : Modifier) (calls : List Modifier) (f : Setting) :
    last? (m :: calls) f =
      (last? calls f).or (if m.setting = f then some m else none) := by
  rw [last?, last?, List.filter_cons]
  by_cases hf : m.setting = f
  · simp [hf, List.getLast?_cons]
  · simp [hf]

theorem setting_of_last? (h : last? calls f = some m) : m.setting = f ∧ m ∈ calls := by
  have hmem := List.mem_of_getLast? h
  rw [List.mem_filter] at hmem
  exact ⟨by simpa using hmem.2, hmem.1⟩

theorem last?_eq_none_iff : last? calls f = none ↔ ∀ m ∈ calls, m.setting ≠ f := by
  rw [last?, List.getLast?_eq_none_iff, List.filter_eq_nil_iff]
  simp

theorem mem_of_filter_eq (h : ∀ f, others.filter (·.setting = f) = calls.filter (·.setting = f))
    (hm : m ∈ others) : m ∈ calls := by
  have hfilter : m ∈ others.filter (·.setting = m.setting) :=
    List.mem_filter.mpr ⟨hm, by simp⟩
  rw [h] at hfilter
  exact (List.mem_filter.mp hfilter).1

end Modifier

namespace Engine

variable {e e' : Engine} {s : ProduceStep} {calls : List Modifier}

theorem evolve_produce (hb : e.stage = .building) (hc : e.current = some (.produce s))
    {accepted : List Variant} (ha : Variant.produce ∈ accepted) (operation : String)
    (changes : List StepChange) :
    e.evolve operation accepted changes = .ok e' ↔
      ∃ made, (Step.produce s).evolve changes = .ok made ∧ e' = e.setStep made := by
  rw [evolve, require_of hb hc ha, ok_bind, bind_eq_ok]
  refine exists_congr fun made => and_congr_right fun _ => ?_
  exact ⟨fun h => (Except.ok.inj h).symm, fun h => congrArg Except.ok h.symm⟩

theorem exists_evolve_change {f : Setting} {content : f.Content} :
    (∃ made, (Step.produce s).evolve [s.change f content] = .ok made ∧ e' = e.setStep made) ↔
      (s.put f content).Passes ∧ e' = e.setStep (.produce (s.put f content)) := by
  simp only [ProduceStep.evolve_change]
  constructor
  · rintro ⟨_, ⟨hpasses, rfl⟩, rfl⟩
    exact ⟨hpasses, rfl⟩
  · rintro ⟨hpasses, rfl⟩
    exact ⟨_, ⟨hpasses, rfl⟩, rfl⟩

theorem evolve_setting (hb : e.stage = .building) (hc : e.current = some (.produce s))
    {accepted : List Variant} (ha : Variant.produce ∈ accepted) (operation : String) (f : Setting)
    (content : f.Content) :
    e.evolve operation accepted [s.change f content] = .ok e' ↔
      (s.put f content).Passes ∧ e' = e.setStep (.produce (s.put f content)) := by
  rw [evolve_produce hb hc ha]
  exact exists_evolve_change

theorem put_iff_suits {m : Modifier} {content : m.setting.Content}
    (hplain : m.setting.isTuning = false) (hcontent : m.content = .ok content)
    (haccepts : (s.put m.setting content).Passes → m.setting.Accepts content) :
    ((s.put m.setting content).Passes ∧ e' = e.setStep (.produce (s.put m.setting content))) ↔
      ∃ content, m.Suits s content ∧
        e' = e.setStep (.produce (s.put m.setting content)) := by
  constructor
  · rintro ⟨hpasses, rfl⟩
    exact ⟨content, (Modifier.suits_plain hplain).mpr ⟨hcontent, hpasses, haccepts hpasses⟩, rfl⟩
  · rintro ⟨other, hsuits, rfl⟩
    obtain rfl : other = content := Except.ok.inj (hsuits.reads.symm.trans hcontent)
    exact ⟨hsuits.passes, rfl⟩

theorem refused_iff {m : Modifier} (fault : Fault) (h : ∀ content, ¬m.Suits s content) :
    Except.error fault = .ok e' ↔ ∃ content, m.Suits s content ∧
      e' = e.setStep (.produce (s.put m.setting content)) := by
  refine iff_of_false (fun hfault => by cases hfault) ?_
  rintro ⟨content, hsuits, -⟩
  exact h content hsuits

theorem construct_tune (hb : e.stage = .building) (hc : e.current = some (.produce s))
    (change : TuningChange) :
    e.tune change = .ok e' ↔ ∃ content, (Modifier.tune change).Suits s content ∧
      e' = e.setStep (.produce (s.put change.setting content)) := by
  have hmem : Variant.produce ∈ Variant.produceSteps := List.mem_cons_self
  have htuning : change.applyTo s.tuning = (s.put change.setting change.content).tuning := by
    cases change <;> rfl
  have hchange : StepChange.tuning (s.put change.setting change.content).tuning =
      s.change change.setting change.content := by
    cases change <;> rfl
  have hown : change.setting.isTuning = true := by cases change <;> rfl
  rw [tune, require_of hb hc hmem, ok_bind, bind_eq_ok, Step.producerTuning, htuning]
  simp only [ProduceStep.check_tuning_iff]
  constructor
  · -- the check of a tuning looks at all of it, so one that passed says so of every setting
    rintro ⟨_, ⟨hall, rfl⟩, hevolve⟩
    rw [hchange, evolve_setting hb hc hmem] at hevolve
    obtain ⟨hpasses, rfl⟩ := hevolve
    refine ⟨change.content, ⟨rfl, hpasses.topic, fun f hf => ?_⟩, rfl⟩
    rcases hf with rfl | rfl | rfl | ⟨-, hf⟩
    · exact hall _ hown
    · exact hpasses.timeout
    · exact hpasses.partition
    · exact hall f hf
  · rintro ⟨content, hsuits, rfl⟩
    obtain rfl : change.content = content := Except.ok.inj hsuits.reads
    refine ⟨_, ⟨fun f hf => hsuits.checked f (.inr (.inr (.inr ⟨hown, hf⟩))), rfl⟩, ?_⟩
    rw [hchange, evolve_setting hb hc hmem]
    exact ⟨hsuits.passes, rfl⟩

theorem setBrokerAuth_iff (hb : e.stage = .building) (hc : e.current = some (.produce s))
    (config : Option BrokerAuthConfig) :
    e.setBrokerAuth "with_broker_auth" config = .ok e' ↔
      ∃ content, (Modifier.brokerAuth config).Suits s content ∧
        e' = e.setStep (.produce (s.put .auth content)) := by
  have hbroker : Variant.produce ∈ Variant.brokerSteps := List.mem_cons_self
  simp only [setBrokerAuth, require_of hb hc hbroker, ok_bind]
  cases hresolved : BrokerStrategy.resolve config with
  | error fault =>
    refine refused_iff fault fun content => Modifier.not_suits_of_refused rfl ?_
    rintro ⟨strategy, hstrategy⟩
    cases hresolved.symm.trans hstrategy
  | ok strategy =>
    exact (evolve_setting hb hc hbroker "with_broker_auth" .auth config).trans
      (put_iff_suits (m := .brokerAuth config) rfl rfl fun _ => ⟨strategy, hresolved⟩)

theorem setHeaders_iff (hb : e.stage = .building) (hc : e.current = some (.produce s))
    (pairs : List (Value × Value)) :
    e.setHeaders pairs = .ok e' ↔ ∃ content, (Modifier.headers pairs).Suits s content ∧
      e' = e.setStep (.produce (s.put .headers content)) := by
  have hmem : Variant.produce ∈ .http :: Variant.produceSteps :=
    List.mem_cons_of_mem _ List.mem_cons_self
  have hvariant : ((Step.produce s).variant = .http) = False := by simp [Step.variant]
  simp only [setHeaders, require_of hb hc hmem, ok_bind, hvariant, if_false,
    evolve_produce hb hc hmem, ProduceStep.evolve_headers]
  cases hread : Draft.messageHeaders pairs with
  | error fault =>
    have hcontent : (Modifier.headers pairs).content = .error fault := hread
    simp [Modifier.not_suits hcontent]
  | ok headers =>
    refine Iff.trans ?_ (put_iff_suits (m := .headers pairs) rfl hread fun _ => trivial)
    simp only [Except.ok.injEq, exists_eq_left']
    exact exists_evolve_change

/-- A call succeeds just if it suits the step, and then writes its setting and nothing else. -/
theorem construct_modifier (hb : e.stage = .building) (hc : e.current = some (.produce s))
    (m : Modifier) :
    e.construct m.construction = .ok e' ↔ ∃ content, m.Suits s content ∧
      e' = e.setStep (.produce (s.put m.setting content)) := by
  have hproduce : Variant.produce ∈ Variant.produceSteps := List.mem_cons_self
  have hbroker : Variant.produce ∈ Variant.brokerSteps := List.mem_cons_self
  cases m with
  | key v =>
    exact (evolve_setting hb hc List.mem_cons_self "with_key" .key v).trans
      (put_iff_suits (m := .key v) rfl rfl fun _ => trivial)
  | partition n =>
    exact (evolve_setting hb hc List.mem_cons_self "with_partition" .partition n).trans
      (put_iff_suits (m := .partition n) rfl rfl (·.partition))
  | timeout v =>
    cases hread : Construction.seconds v with
    | error fault =>
      simp only [Modifier.construction, construct, hread, error_bind]
      exact refused_iff fault fun content => Modifier.not_suits hread
    | ok x =>
      simp only [Modifier.construction, construct, hread, ok_bind]
      exact (evolve_setting hb hc (List.mem_cons_of_mem _ hbroker) "with_timeout" .timeout x).trans
        (put_iff_suits (m := .timeout v) rfl hread (·.timeout))
  | timestamp v =>
    cases hread : Construction.time v with
    | error fault =>
      simp only [Modifier.construction, construct, hread, error_bind]
      exact refused_iff fault fun content => Modifier.not_suits hread
    | ok t =>
      simp only [Modifier.construction, construct, hread, ok_bind]
      exact (evolve_setting hb hc List.mem_cons_self "with_timestamp" .timestamp t).trans
        (put_iff_suits (m := .timestamp v) rfl hread fun _ => trivial)
  | bootstrapServers servers =>
    by_cases hempty : servers = ""
    · subst hempty
      exact refused_iff _ fun content => Modifier.not_suits_of_refused rfl fun h => h rfl
    · rw [Modifier.construction, construct_bootstrapServers e hempty]
      exact (evolve_setting hb hc hbroker "with_bootstrap_servers" .bootstrapServers
        (some servers)).trans (put_iff_suits (m := .bootstrapServers servers) rfl rfl
          fun _ h => hempty (Option.some.inj h))
  | brokerAuth config => exact setBrokerAuth_iff hb hc config
  | jsonOptions options =>
    simp only [Modifier.construction, construct, setJsonOptions]
    split
    · rename_i hknown
      exact (evolve_setting hb hc hproduce "with_json_options" .jsonOptions options).trans
        (put_iff_suits (m := .jsonOptions options) rfl rfl fun _ => hknown)
    · rename_i hunknown
      exact refused_iff _ fun content => Modifier.not_suits_of_refused rfl hunknown
  | headers pairs => exact setHeaders_iff hb hc pairs
  | tune change => exact construct_tune hb hc change

/-- Calls that each suit the step all succeed, one after another, and leave in every setting what the
last call that writes it has written. -/
theorem constructAll_modifiers (hb : e.stage = .building) (hc : e.current = some (.produce s))
    (hcalls : ∀ m ∈ calls, ∃ content, m.Suits s content) :
    ∃ made : ProduceStep,
      e.constructAll (calls.map (·.construction)) = .ok (e.setStep (.produce made)) ∧
      made.topic = s.topic ∧ made.value = s.value ∧
      (∀ f, Modifier.last? calls f = none → made.settings f = s.settings f) ∧
      ∀ f m, Modifier.last? calls f = some m → m.content = .ok (made.settings m.setting) := by
  induction calls generalizing e s with
  | nil =>
    refine ⟨s, ?_, rfl, rfl, fun f _ => rfl, fun f m h => by cases h⟩
    rw [setStep, ← hc]
    rfl
  | cons m rest ih =>
    obtain ⟨content, hsuits⟩ := hcalls m List.mem_cons_self
    -- what the first call has written leaves the others as acceptable as they were
    have hrest : ∀ n ∈ rest, ∃ other, n.Suits (s.put m.setting content) other := by
      intro n hn
      obtain ⟨other, hother⟩ := hcalls n (List.mem_cons_of_mem _ hn)
      exact ⟨other, hsuits.after hother⟩
    obtain ⟨made, hmade, htopic, hvalue, hkept, hlast⟩ :=
      ih (e := e.setStep (.produce (s.put m.setting content))) hb rfl hrest
    have hfirst := (construct_modifier hb hc m).mpr ⟨content, hsuits, rfl⟩
    refine ⟨made, ?_, htopic, hvalue, fun f hf => ?_, fun f n hn => ?_⟩
    · rw [List.map_cons, constructAll, List.foldlM_cons, hfirst, ok_bind]
      exact hmade
    · rw [Modifier.last?_cons, Option.or_eq_none_iff] at hf
      have hne : f ≠ m.setting := by
        rintro rfl
        simp at hf
      rw [hkept f hf.1, ProduceStep.settings_put, Function.update_of_ne hne]
    · rw [Modifier.last?_cons] at hn
      cases hlater : Modifier.last? rest f with
      | some later =>
        rw [hlater] at hn
        cases hn
        exact hlast f n hlater
      | none =>
        rw [hlater, Option.none_or] at hn
        split_ifs at hn with hf
        cases hn
        rw [hkept m.setting (hf ▸ hlater), ProduceStep.settings_put, Function.update_self]
        exact hsuits.reads

/-- Operations that write one setting each commute, and the last call of each wins. If the calls are
accepted one by one, all of them succeed in a row; topic and value stay, a setting that no call
writes keeps its content, and any other has what the last call of its operation writes. Other such
calls of which each operation has the same last one lead to the same step, and so does every
reordering in which the calls of each operation keep their order. -/
theorem modifiers_commute (hb : e.stage = .building) (hc : e.current = some (.produce s))
    (hcalls : ∀ m ∈ calls, ∃ e', e.construct m.construction = .ok e') :
    ∃ made : ProduceStep,
      e.constructAll (calls.map (·.construction)) = .ok (e.setStep (.produce made)) ∧
      made.topic = s.topic ∧ made.value = s.value ∧
      (∀ f, (∀ m ∈ calls, m.setting ≠ f) → made.settings f = s.settings f) ∧
      (∀ f m, Modifier.last? calls f = some m → m.content = .ok (made.settings m.setting)) ∧
      (∀ others : List Modifier, (∀ m ∈ others, ∃ e', e.construct m.construction = .ok e') →
        (∀ f, Modifier.last? others f = Modifier.last? calls f) →
        e.constructAll (others.map (·.construction)) = .ok (e.setStep (.produce made))) ∧
      ∀ others : List Modifier,
        (∀ f, others.filter (·.setting = f) = calls.filter (·.setting = f)) →
        e.constructAll (others.map (·.construction)) = .ok (e.setStep (.produce made)) := by
  have hsuits : ∀ calls : List Modifier,
      (∀ m ∈ calls, ∃ e', e.construct m.construction = .ok e') →
        ∀ m ∈ calls, ∃ content, m.Suits s content := by
    intro calls hcalls m hm
    obtain ⟨e', he'⟩ := hcalls m hm
    obtain ⟨content, hsuits, -⟩ := (construct_modifier hb hc m).mp he'
    exact ⟨content, hsuits⟩
  obtain ⟨made, hmade, htopic, hvalue, hkept, hlast⟩ :=
    constructAll_modifiers hb hc (hsuits calls hcalls)
  -- the settings tell the step, and the last calls tell the settings
  have hsame : ∀ others : List Modifier,
      (∀ m ∈ others, ∃ e', e.construct m.construction = .ok e') →
        (∀ f, Modifier.last? others f = Modifier.last? calls f) →
          e.constructAll (others.map (·.construction)) = .ok (e.setStep (.produce made)) := by
    intro others hothers hagree
    obtain ⟨made', hmade', htopic', hvalue', hkept', hlast'⟩ :=
      constructAll_modifiers hb hc (hsuits others hothers)
    have heq : made' = made := by
      refine ProduceStep.ext_settings (htopic'.trans htopic.symm) (hvalue'.trans hvalue.symm) ?_
      intro f
      cases hf : Modifier.last? calls f with
      | none => rw [hkept f hf, hkept' f ((hagree f).trans hf)]
      | some m =>
        obtain ⟨rfl, -⟩ := Modifier.setting_of_last? hf
        have hwritten := (hlast' _ m ((hagree _).trans hf)).symm.trans (hlast _ m hf)
        exact Except.ok.inj hwritten
    rw [hmade', heq]
  refine ⟨made, hmade, htopic, hvalue, fun f hf => hkept f (Modifier.last?_eq_none_iff.mpr hf),
    hlast, hsame, fun others hothers => ?_⟩
  refine hsame others (fun m hm => hcalls m (Modifier.mem_of_filter_eq hothers hm)) fun f => ?_
  rw [Modifier.last?, hothers f, Modifier.last?]

/-- Lingering set twice among other settings, and the same calls in another order. -/
theorem modifiers_commute_interleaved :
    let s : ProduceStep :=
      { topic := "orders", value := .text "v", key := .null, headers := [], partition := none
        timestamp := none, timeout := Binary64.ofNat 30, tuning := .plain
        bootstrapServers := none, auth := none, jsonOptions := [] }
    let e : Engine := { settings := {}, current := some (.produce s) }
    let early : Modifier := .tune (.linger (.int 5))
    let late : Modifier := .tune (.linger (.int 7))
    let calls : List Modifier :=
      [early, .key (.text "k"), .timeout (.int 9), late, .tune (.retries (.int 2))]
    let others : List Modifier :=
      [.tune (.retries (.int 2)), early, .timeout (.int 9), late, .key (.text "k")]
    (∀ m ∈ calls, ∃ e', e.construct m.construction = .ok e') ∧
      ∃ made, e.constructAll (calls.map (·.construction)) = .ok (e.setStep (.produce made)) ∧
        e.constructAll (others.map (·.construction)) = .ok (e.setStep (.produce made)) ∧
        made.tuning.lingerMs = .int 7 ∧ made.headers = [] := by
  intro s e early late calls others
  have hcalls : ∀ m ∈ calls, ∃ e', e.construct m.construction = .ok e' := by
    have hall : (calls.all fun m => (e.construct m.construction).toBool) = true := by
      decide +kernel
    intro m hm
    have hok := List.all_eq_true.mp hall m hm
    cases hmade : e.construct m.construction with
    | ok e' => exact ⟨e', rfl⟩
    | error fault =>
      rw [hmade] at hok
      cases hok
  obtain ⟨made, hmade, -, -, hkept, hlast, -, hreordered⟩ :=
    modifiers_commute (e := e) (s := s) rfl rfl hcalls
  have hlinger : Except.ok (Value.int 7) = Except.ok made.tuning.lingerMs :=
    hlast .linger late rfl
  refine ⟨hcalls, made, hmade, hreordered others fun f => ?_, (Except.ok.inj hlinger).symm,
    hkept .headers (by decide)⟩
  cases f <;> rfl

end Engine

end Rehearsal
