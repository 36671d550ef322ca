import Rehearsal.Proofs.Execution.Run
import Rehearsal.Proofs.Step.Valid

/-! Why a step raises that runs. A valid step with a broker raises only where it gets no client: the
pool refuses, or the settings are to authenticate it and theirs does not resolve. A valid request
raises before it is made, while a token is fetched for it, or because it cannot be sent. That the
authentication of a step itself does not resolve is not among the reasons. -/

namespace Rehearsal

theorem given_error {α β : Type} {f : Option α → Except Fault β} {own default : Option α}
    {fault : Fault} (hown : ∃ b, f own = .ok b) (h : f (given own default) = .error fault) :
    own = none ∧ f default = .error fault := by
  cases own with
  | none => exact ⟨rfl, h⟩
  | some a =>
    obtain ⟨b, hb⟩ := hown
    exact nomatch hb.symm.trans h

/-- Whether a fault becomes a result of the request that meets it. -/
def Fault.isTransport (fault : Fault) : Bool :=
  fault.kind.isA .transport || fault.kind.isA .stepTimeout

theorem HttpStep.captured_error (step : HttpStep) {now : Instant} {fault other : Fault}
    (h : step.captured now fault = .error other) : fault = other ∧ other.isTransport = false := by
  unfold captured at h
  split at h
  · cases h
  · rename_i hkind
    cases h
    exact ⟨rfl, Bool.eq_false_iff.mpr hkind⟩

theorem HttpStrategy.authorize_error {strategy : HttpStrategy} {request : Request}
    {service : TokenService} {fault : Fault}
    (h : (strategy.authorize request service).1 = .error fault) :
    ∃ auth, strategy = .oauth2 auth ∧ (auth.token service).1 = .error fault := by
  cases strategy with
  | oauth2 auth =>
    simp only [authorize] at h
    split at h
    · cases h
    · rename_i htoken
      cases h
      exact ⟨auth, rfl, congrArg Prod.fst htoken⟩
  | _ => cases h

namespace Pool

variable {p : Pool} {fault : Fault}

def Refuses (p : Pool) (fault : Fault) : Prop :=
  p.isClosed = true ∧ fault = .configuration .poolClosed ∨
    p.hasBroker = false ∧ fault = .configuration .noBroker

theorem checkOpen_error (h : p.checkOpen = .error fault) :
    p.isClosed = true ∧ fault = .configuration .poolClosed := by
  unfold checkOpen at h
  split at h
  · rename_i hclosed
    cases h
    exact ⟨hclosed, rfl⟩
  · cases h

theorem checkBroker_error (h : p.checkBroker = .error fault) :
    p.hasBroker = false ∧ fault = .configuration .noBroker := by
  unfold checkBroker at h
  split at h
  · cases h
  · rename_i hbroker
    cases h
    exact ⟨Bool.eq_false_iff.mpr hbroker, rfl⟩

theorem refuses_of_checks (h : (p.checkOpen.bind fun _ => p.checkBroker) = .error fault) :
    p.Refuses fault := by
  rcases bind_eq_error.mp h with hopen | ⟨_, -, hbroker⟩
  · exact .inl (checkOpen_error hopen)
  · exact .inr (checkBroker_error hbroker)

theorem sharedProducer_error {config : ClientConfig}
    (h : (p.sharedProducer config none).1 = .error fault) : p.Refuses fault := by
  unfold sharedProducer at h
  split at h
  · cases h
  · split at h
    · rename_i hchecks
      cases h
      exact refuses_of_checks hchecks
    · cases h

theorem ownClient_error {role : ClientRole} (h : (p.ownClient role none).1 = .error fault) :
    p.Refuses fault := by
  unfold ownClient at h
  split at h
  · rename_i hchecks
    cases h
    exact refuses_of_checks hchecks
  · cases h

theorem executor_error (h : (p.executor none).1 = .error fault) :
    p.isClosed = true ∧ fault = .configuration .poolClosed := by
  unfold executor at h
  split at h
  · cases h
  · split at h
    · rename_i hopen
      cases h
      exact checkOpen_error hopen
    · cases h

theorem httpClient_error {certificate : Option ClientCertificate} {failure : Option Fault}
    (h : (p.httpClient certificate failure).1 = .error fault) :
    p.isClosed = true ∧ fault = .configuration .poolClosed ∨ failure = some fault := by
  unfold httpClient at h
  split at h
  · cases h
  · split at h
    · rename_i hopen
      cases h
      exact .inl (checkOpen_error hopen)
    · cases failure with
      | none => cases h
      | some why =>
        cases h
        exact .inr rfl

end Pool

namespace World

variable {w : World} {settings : Settings} {fault : Fault}

/-- Why a step gets no client of the broker. -/
def Denies (w : World) (settings : Settings) (auth : Option BrokerAuthConfig) (fault : Fault) :
    Prop :=
  w.pool.Refuses fault ∨ BrokerStrategy.resolve (given auth settings.broker.auth) = .error fault

variable {servers : Option String} {auth : Option BrokerAuthConfig}

theorem clientConfig_error {role suffix : String}
    (h : settings.broker.clientConfig servers auth role suffix = .error fault) :
    BrokerStrategy.resolve (given auth settings.broker.auth) = .error fault := by
  rcases bind_eq_error.mp h with h | ⟨_, -, h⟩
  · exact h
  · cases h

theorem producer_error {tuning : ProducerTuning}
    (h : (w.producer settings tuning servers auth).1 = .error fault) :
    w.Denies settings auth fault := by
  unfold producer at h
  split at h
  · rename_i hconfig
    cases h
    exact .inr (clientConfig_error hconfig)
  · have hacquired := map_eq_error.mp h
    split at hacquired
    · exact .inl (Pool.sharedProducer_error hacquired)
    · exact .inl (Pool.ownClient_error hacquired)

theorem sendAll_error {tuning : ProducerTuning} {deadline : Binary64}
    {messages : List (Except Fault Outgoing)}
    (h : (w.sendAll settings tuning servers auth deadline messages).1 = .error fault) :
    w.Denies settings auth fault := by
  unfold sendAll at h
  split at h
  · rename_i hproducer
    cases h
    exact producer_error (congrArg Prod.fst hproducer)
  · rename_i made hproducer
    have hkept := (w.producer_kept settings tuning servers auth).1
    rw [hproducer] at hkept
    split at h
    · rename_i hworkers
      cases h
      obtain ⟨hclosed, rfl⟩ := Pool.executor_error (congrArg Prod.fst hworkers)
      exact .inl (.inl ⟨hkept.isClosed.symm.trans hclosed, rfl⟩)
    · cases h

theorem consumer_error {group : Option String} {reset : OffsetReset}
    (h : (w.consumer settings servers auth group reset).1 = .error fault) :
    w.Denies settings auth fault := by
  unfold consumer at h
  split at h
  · rename_i hconfig
    cases h
    exact .inr (clientConfig_error hconfig)
  · exact .inl (Pool.ownClient_error (map_eq_error.mp h))

/-- Whether a step makes and authenticates a request. -/
def Prepares (w : World) (settings : Settings) (step : HttpStep) (request : Request) : Prop :=
  ∃ plain strategy, step.request settings.http = .ok plain ∧
    HttpStrategy.resolve (given step.auth settings.http.auth) = .ok strategy ∧
    (strategy.authorize plain w.tokens).1 = .ok request

/-- Why a step raises. An authentication that does not resolve is that of the settings, which steps
use that have none of their own. -/
inductive Raises (w : World) (settings : Settings) : Step → Fault → Prop where
  | refused {step : Step} {fault : Fault} (hv : step.variant ∈ Variant.brokerSteps)
      (h : w.pool.Refuses fault) : Raises w settings step fault
  | brokerAuth {step : Step} {fault : Fault} (hv : step.variant ∈ Variant.brokerSteps)
      (hown : step.brokerAuth = none)
      (h : BrokerStrategy.resolve settings.broker.auth = .error fault) :
      Raises w settings step fault
  | body {step : HttpStep} {fault : Fault} (h : step.content = .error fault) :
      Raises w settings (.http step) fault
  | httpAuth {step : HttpStep} {fault : Fault} (hown : step.auth = none)
      (h : HttpStrategy.resolve settings.http.auth = .error fault) :
      Raises w settings (.http step) fault
  | token {step : HttpStep} {fault : Fault} {auth : OAuth2Auth}
      (hstrategy : HttpStrategy.resolve (given step.auth settings.http.auth) = .ok (.oauth2 auth))
      (h : (auth.token w.tokens).1 = .error fault) (hkind : fault.isTransport = false) :
      Raises w settings (.http step) fault
  | closed {step : HttpStep} {request : Request} (hmade : w.Prepares settings step request)
      (h : w.pool.isClosed = true) : Raises w settings (.http step) (.configuration .poolClosed)
  | certificate {step : HttpStep} {request : Request} {fault : Fault}
      (hmade : w.Prepares settings step request)
      (h : w.certificateFault request.certificate = some fault) :
      Raises w settings (.http step) fault
  | address {step : HttpStep} {request : Request} {fault : Fault}
      (hmade : w.Prepares settings step request) (h : request.address = .error fault) :
      Raises w settings (.http step) fault

theorem Denies.raises {step : Step} (hv : step.variant ∈ Variant.brokerSteps)
    (hown : ∃ strategy, BrokerStrategy.resolve step.brokerAuth = .ok strategy)
    (h : w.Denies settings step.brokerAuth fault) : w.Raises settings step fault := by
  rcases h with h | h
  · exact .refused hv h
  · obtain ⟨hnone, hdefault⟩ := given_error hown h
    exact .brokerAuth hv hnone hdefault

theorem send_error {step : HttpStep} {request : Request}
    (h : (w.send step request).1 = .error fault) :
    w.pool.isClosed = true ∧ fault = .configuration .poolClosed ∨
      w.certificateFault request.certificate = some fault ∨ request.address = .error fault := by
  unfold send at h
  split at h
  · rename_i why _ hclient
    obtain ⟨rfl, -⟩ := step.captured_error h
    rcases Pool.httpClient_error (congrArg Prod.fst hclient) with hclosed | hflaw
    · exact .inl hclosed
    · exact .inr (.inl hflaw)
  · unfold transmit at h
    split at h
    · rename_i why haddress
      obtain ⟨rfl, -⟩ := step.captured_error h
      exact .inr (.inr haddress)
    · cases h

theorem runHttp_raises {step : HttpStep} (hvalid : step.Valid)
    (h : (w.runHttp settings step).1 = .error fault) : w.Raises settings (.http step) fault := by
  simp only [runHttp] at h
  split at h
  · -- no request, or none that could be authenticated
    rename_i why hready
    cases h
    rcases bind_eq_error.mp hready with hplain | ⟨plain, -, hready⟩
    · rcases bind_eq_error.mp hplain with hbody | ⟨_, -, hbody⟩
      · exact .body hbody
      · cases hbody
    · rcases bind_eq_error.mp hready with hstrategy | ⟨_, -, hready⟩
      · obtain ⟨hown, hdefault⟩ := given_error hvalid.auth hstrategy
        exact .httpAuth hown hdefault
      · cases hready
  · rename_i plain strategy hready
    obtain ⟨_, hplain, hready⟩ := bind_eq_ok.mp hready
    obtain ⟨_, hstrategy, hready⟩ := bind_eq_ok.mp hready
    cases hready
    split at h
    · -- what fails in the transport of a token is a result
      rename_i why _ hauthorized
      obtain ⟨rfl, hkind⟩ := step.captured_error h
      obtain ⟨auth, rfl, htoken⟩ := HttpStrategy.authorize_error (congrArg Prod.fst hauthorized)
      exact .token hstrategy htoken hkind
    · rename_i request tokens hauthorized
      have hmade : w.Prepares settings step request :=
        ⟨plain, strategy, hplain, hstrategy, congrArg Prod.fst hauthorized⟩
      rcases send_error h with ⟨hclosed, rfl⟩ | hflaw | haddress
      · exact .closed hmade hclosed
      · exact .certificate hmade hflaw
      · exact .address hmade haddress

/-- A valid step raises for one of these reasons. -/
theorem run_raises {step : Step} (hvalid : step.Valid)
    (h : (w.run settings step).1 = .error fault) : w.Raises settings step fault := by
  cases step with
  | http step => exact runHttp_raises hvalid h
  | produce step =>
    simp only [run, runProduce] at h
    split at h
    · rename_i hsent
      cases h
      have hsteps : Variant.produce ∈ Variant.brokerSteps := by decide
      exact (sendAll_error (congrArg Prod.fst hsent)).raises hsteps hvalid.auth
    · cases h
  | consume step =>
    simp only [run, runConsume] at h
    split at h
    · rename_i hopened
      cases h
      have hsteps : Variant.consume ∈ Variant.brokerSteps := by decide
      exact (consumer_error (congrArg Prod.fst hopened)).raises hsteps hvalid.auth
    · cases h
  | batchProduce step =>
    simp only [run, runBatchProduce] at h
    split at h
    · rename_i hsent
      cases h
      have hsteps : Variant.batchProduce ∈ Variant.brokerSteps := by decide
      exact (sendAll_error (congrArg Prod.fst hsent)).raises hsteps hvalid.auth
    · cases h
  | batchConsume step =>
    simp only [run, runBatchConsume] at h
    split at h
    · rename_i hopened
      cases h
      have hsteps : Variant.batchConsume ∈ Variant.brokerSteps := by decide
      exact (consumer_error (congrArg Prod.fst hopened)).raises hsteps hvalid.auth
    · cases h

end World

end Rehearsal
