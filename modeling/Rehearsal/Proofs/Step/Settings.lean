import Mathlib.Logic.Function.Basic
import Mathlib.Tactic.SplitIfs
import Rehearsal.Proofs.Step.Renewal
import Rehearsal.Proofs.Step.Tuning

/-! The settings of a step that sends a message. Such a step is its topic, its value and a content
for each of its settings. Whatever the checks look at when a setting is written, they ask of each
content by itself. -/

namespace Rehearsal

namespace ProduceStep

/-- What can be set of a step that sends a message. The last six are the tuning of its producer. -/
inductive Setting where
  | timeout
  | key
  | partition
  | timestamp
  | bootstrapServers
  | auth
  | jsonOptions
  | headers
  | compression
  | acks
  | batchSize
  | linger
  | retries
  | idempotence
  deriving DecidableEq, Repr

namespace Setting

def Content : Setting → Type
  | timeout => Binary64
  | partition => Option Int
  | timestamp => Option Instant
  | bootstrapServers => Option String
  | auth => Option BrokerAuthConfig
  | jsonOptions => List (String × Value)
  | headers => MessageHeaders
  | _ => Value

def isTuning : Setting → Bool
  | compression | acks | batchSize | linger | retries | idempotence => true
  | _ => false

/-- What the checks ask of a content. -/
def Accepts : (f : Setting) → f.Content → Prop
  | timeout, x => Draft.seconds "ProduceStep" (.float x) = .ok x
  | partition, n => checkPartition n = .ok ()
  | bootstrapServers, servers => servers ≠ some ""
  | auth, config => ∃ strategy, BrokerStrategy.resolve config = .ok strategy
  | jsonOptions, options => unknownFields jsonOptionNames (options.map (·.1)) = []
  | compression, v => ProducerTuning.knowsCompression v
  | acks, v => ProducerTuning.knowsAcks v
  | batchSize, v => ProducerTuning.checkCount "batch_size" v = .ok ()
  | linger, v => ProducerTuning.checkCount "linger_ms" v = .ok ()
  | retries, v => ProducerTuning.checkCount "retries" v = .ok ()
  | key, _ | timestamp, _ | headers, _ | idempotence, _ => True

/-- Whether `g` is looked at when `f` is written: what is written is, the timeout and the partition
always are, and all of the tuning is if some of it is written. -/
def CheckedWith (f g : Setting) : Prop :=
  f = g ∨ g = timeout ∨ g = partition ∨ f.isTuning ∧ g.isTuning

end Setting

open Setting

/-- The contents of all settings. -/
def settings (s : ProduceStep) : (f : Setting) → f.Content
  | .timeout => s.timeout
  | .key => s.key
  | .partition => s.partition
  | .timestamp => s.timestamp
  | .bootstrapServers => s.bootstrapServers
  | .auth => s.auth
  | .jsonOptions => s.jsonOptions
  | .headers => s.headers
  | .compression => s.tuning.compression
  | .acks => s.tuning.acks
  | .batchSize => s.tuning.batchSize
  | .linger => s.tuning.lingerMs
  | .retries => s.tuning.retries
  | .idempotence => s.tuning.idempotence

def withSettings (s : ProduceStep) (contents : (f : Setting) → f.Content) : ProduceStep where
  topic := s.topic
  value := s.value
  key := contents .key
  headers := contents .headers
  partition := contents .partition
  timestamp := contents .timestamp
  timeout := contents .timeout
  tuning :=
    { compression := contents .compression, acks := contents .acks
      batchSize := contents .batchSize, lingerMs := contents .linger
      retries := contents .retries, idempotence := contents .idempotence }
  bootstrapServers := contents .bootstrapServers
  auth := contents .auth
  jsonOptions := contents .jsonOptions

def put (s : ProduceStep) (f : Setting) (content : f.Content) : ProduceStep :=
  s.withSettings (Function.update s.settings f content)

variable {s made : ProduceStep} {f : Setting} {content : f.Content}

theorem settings_withSettings (contents : (f : Setting) → f.Content) :
    (s.withSettings contents).settings = contents := by
  funext f
  cases f <;> rfl

theorem settings_put (s : ProduceStep) (f : Setting) (content : f.Content) :
    (s.put f content).settings = Function.update s.settings f content :=
  settings_withSettings _

theorem ext_settings (htopic : made.topic = s.topic) (hvalue : made.value = s.value)
    (hsettings : ∀ f, made.settings f = s.settings f) : made = s := by
  have hfun : made.settings = s.settings := funext hsettings
  calc made = made.withSettings made.settings := rfl
    _ = s.withSettings s.settings := by
      rw [hfun]
      simp only [withSettings, htopic, hvalue]
    _ = s := rfl

/-- What building a step from its own draft looks at. -/
structure Passes (s : ProduceStep) : Prop where
  topic : Draft.topicName "ProduceStep" (.text s.topic) = .ok s.topic
  partition : checkPartition s.partition = .ok ()
  timeout : Draft.seconds "ProduceStep" (.float s.timeout) = .ok s.timeout

theorem build_draft_iff (s made : ProduceStep) :
    s.draft.build = .ok made ↔ s.Passes ∧ made = s := by
  constructor
  · intro h
    obtain ⟨topic, htopic, h⟩ := bind_eq_ok.mp h
    obtain ⟨_, hpartition, h⟩ := bind_eq_ok.mp h
    obtain ⟨headers, hheaders, h⟩ := bind_eq_ok.mp h
    obtain ⟨timeout, htimeout, h⟩ := bind_eq_ok.mp h
    have hname : topic = s.topic := by
      rw [draft, Draft.topicName] at htopic
      split_ifs at htopic
      cases htopic
      rfl
    obtain rfl := Draft.seconds_float htimeout
    cases (Draft.messageHeaders_entries s.headers).symm.trans hheaders
    subst hname
    cases h
    exact ⟨⟨htopic, hpartition, htimeout⟩, rfl⟩
  · rintro ⟨h, rfl⟩
    simp only [draft, ProduceDraft.build, h.topic, h.partition, Draft.messageHeaders_entries,
      h.timeout, ok_bind]
    rfl

def change (s : ProduceStep) : (f : Setting) → f.Content → StepChange
  | .timeout, x => .timeout (.float x)
  | .key, v => .key v
  | .partition, n => .partition n
  | .timestamp, t => .timestamp t
  | .bootstrapServers, servers => .bootstrapServers servers
  | .auth, config => .brokerAuth config
  | .jsonOptions, options => .jsonOptions options
  | .headers, headers => .headers (MessageHeaders.entries headers)
  | .compression, v => .tuning (s.put .compression v).tuning
  | .acks, v => .tuning (s.put .acks v).tuning
  | .batchSize, v => .tuning (s.put .batchSize v).tuning
  | .linger, v => .tuning (s.put .linger v).tuning
  | .retries, v => .tuning (s.put .retries v).tuning
  | .idempotence, v => .tuning (s.put .idempotence v).tuning

theorem evolve_eq (s : ProduceStep) {changes : StepChange}
    (hname : changes.name ∈ Variant.produce.fieldNames) :
    (Step.produce s).evolve [changes] = (changes.toProduce s.draft).build.map .produce := by
  have hknown : refuseUnknown (Step.produce s).variant.name (Step.produce s).variant.fieldNames
      ([changes].map (·.name)) = .ok () :=
    refuseUnknown_known (by simpa [Step.variant] using hname)
  rw [Step.evolve, hknown]
  rfl

/-- A setting is written just if the step that comes of it passes the checks. -/
theorem evolve_change (s : ProduceStep) (f : Setting) (content : f.Content) (made : Step) :
    (Step.produce s).evolve [s.change f content] = .ok made ↔
      (s.put f content).Passes ∧ made = .produce (s.put f content) := by
  have hname : (s.change f content).name ∈ Variant.produce.fieldNames := by
    cases f <;> simp [change, StepChange.name, Variant.fieldNames]
  have hdraft : (s.change f content).toProduce s.draft = (s.put f content).draft := by
    cases f <;> rfl
  rw [evolve_eq s hname, hdraft, map_eq_ok]
  simp only [build_draft_iff]
  constructor
  · rintro ⟨_, ⟨hpasses, rfl⟩, rfl⟩
    exact ⟨hpasses, rfl⟩
  · rintro ⟨hpasses, rfl⟩
    exact ⟨_, ⟨hpasses, rfl⟩, rfl⟩

theorem evolve_headers (s : ProduceStep) (pairs : List (Value × Value)) (made : Step) :
    (Step.produce s).evolve [.headers pairs] = .ok made ↔
      ∃ headers, Draft.messageHeaders pairs = .ok headers ∧
        (Step.produce s).evolve [s.change .headers headers] = .ok made := by
  have hname : ∀ pairs, (StepChange.headers pairs).name ∈ Variant.produce.fieldNames := by
    intro pairs
    simp [StepChange.name, Variant.fieldNames]
  have hbuild : ∀ pairs, ((StepChange.headers pairs).toProduce s.draft).build =
      (Draft.topicName "ProduceStep" (.text s.topic) >>= fun topic =>
        checkPartition s.partition >>= fun _ =>
          Draft.messageHeaders pairs >>= fun headers =>
            Draft.seconds "ProduceStep" (.float s.timeout) >>= fun timeout =>
              .ok { s with topic := topic, headers := headers, timeout := timeout }) := by
    intro pairs
    rfl
  simp only [change, evolve_eq s (hname _), hbuild, Draft.messageHeaders_entries, ok_bind]
  cases Draft.messageHeaders pairs with
  | ok headers => simp [ok_bind]
  | error fault =>
    cases Draft.topicName "ProduceStep" (.text s.topic) with
    | error => simp [bind, Except.bind, Except.map]
    | ok topic => cases checkPartition s.partition <;> simp [bind, Except.bind, Except.map]

/-- The tuning of a producer passes its check just if each setting of it is accepted. -/
theorem check_tuning_iff (s : ProduceStep) (tuning : ProducerTuning) :
    s.tuning.check = .ok tuning ↔
      (∀ f : Setting, f.isTuning → f.Accepts (s.settings f)) ∧ tuning = s.tuning := by
  rw [ProducerTuning.check_iff]
  refine and_congr_left fun _ => ⟨fun h f hf => ?_, fun h => ?_⟩
  · cases f with
    | compression => exact (ProducerTuning.knowsCompression_iff _).mpr h.compression
    | acks => exact (ProducerTuning.knowsAcks_iff _).mpr h.acks
    | batchSize => exact (ProducerTuning.checkCount_iff _ _).mpr h.batchSize
    | linger => exact (ProducerTuning.checkCount_iff _ _).mpr h.lingerMs
    | retries => exact (ProducerTuning.checkCount_iff _ _).mpr h.retries
    | idempotence => trivial
    | _ => cases hf
  · exact ⟨(ProducerTuning.knowsCompression_iff _).mp (h .compression rfl),
      (ProducerTuning.knowsAcks_iff _).mp (h .acks rfl),
      (ProducerTuning.checkCount_iff _ _).mp (h .batchSize rfl),
      (ProducerTuning.checkCount_iff _ _).mp (h .linger rfl),
      (ProducerTuning.checkCount_iff _ _).mp (h .retries rfl)⟩

end ProduceStep

end Rehearsal
