import Rehearsal.Execution.Broker
import Rehearsal.Proofs.Auth.Overlay

/-! What the configuration of a producer holds under each name. The servers, the names of a sign-in
and of transport settings, and the names of a tuning are apart from one another, so every entry is
written by one of them alone; one authentication writes all that concerns it. -/

namespace Rehearsal

namespace BrokerStrategy

def securityNames : List String := signInNames ++ transportNames

/-- Whether a strategy writes names of a sign-in, then names of transport settings, each once. -/
def Orderly (strategy : BrokerStrategy) : Prop :=
  (strategy.entries.map (·.1)).Sublist securityNames

variable {strategy : BrokerStrategy} {auth : Option BrokerAuthConfig} {ssl : Option SslAuth}

theorem orderly_overlay (auth : SslAuth) : (overlay auth).Orderly :=
  (transport_names auth).trans (List.sublist_append_right _ _)

theorem orderly_ssl (auth : SslAuth) : (BrokerStrategy.ssl auth).Orderly :=
  List.Sublist.append (by decide : ["security.protocol"].Sublist signInNames)
    (transport_names auth)

theorem SignsIn.orderly_withOverlay {signs : BrokerStrategy} (h : signs.SignsIn)
    (hwith : withOverlay signs ssl = .ok strategy) : strategy.Orderly := by
  cases ssl with
  | none =>
    cases hwith
    rw [Orderly, h.names]
    exact List.sublist_append_left _ _
  | some ssl =>
    obtain ⟨auth, -, rfl⟩ := map_eq_ok.mp hwith
    rw [Orderly, entries, List.map_append, h.names]
    exact (List.Sublist.refl _).append (transport_names auth)

theorem orderly_sasl {config : BrokerAuthConfig} (hsasl : config.type.isSasl = true)
    (h : resolve (some config) = .ok strategy) : strategy.Orderly := by
  have hresolve := resolve_sasl hsasl config.ssl
  obtain ⟨signs, hmade, hwith⟩ := bind_eq_ok.mp (hresolve.symm.trans h)
  exact (resolve_signsIn hsasl hmade).orderly_withOverlay hwith

theorem resolve_orderly (h : resolve auth = .ok strategy) : strategy.Orderly := by
  cases auth with
  | none =>
    cases h
    exact List.nil_sublist _
  | some config =>
    -- only a sign-in writes names of both kinds
    cases hsasl : config.type.isSasl with
    | true => exact orderly_sasl hsasl h
    | false =>
      obtain ⟨type, plain, scram, ssl⟩ := config
      cases type with
      | none =>
        cases ssl with
        | none =>
          cases h
          exact List.nil_sublist _
        | some auth =>
          obtain ⟨made, -, rfl⟩ := map_eq_ok.mp h
          exact orderly_overlay made
      | ssl =>
        obtain ⟨given, -, h⟩ := bind_eq_ok.mp h
        obtain ⟨made, -, h⟩ := bind_eq_ok.mp h
        cases h
        exact orderly_ssl made
      | mutualTls =>
        obtain ⟨given, -, h⟩ := bind_eq_ok.mp h
        obtain ⟨made, -, h⟩ := bind_eq_ok.mp h
        cases h
        exact orderly_ssl made
      | unknown text => cases h
      | _ => cases hsasl

theorem Orderly.distinct (h : strategy.Orderly) : strategy.Distinct :=
  List.Sublist.nodup h (by decide)

theorem Orderly.value?_none (h : strategy.Orderly) {name : String} (hname : name ∉ securityNames) :
    strategy.value? name = none :=
  Keyed.get?_eq_none fun hmem => hname (List.Sublist.subset h hmem)

end BrokerStrategy

namespace ProducerTuning

def names : List String :=
  ["compression.type", "acks", "batch.size", "linger.ms", "retries", "enable.idempotence"]

theorem config_names (t : ProducerTuning) : (t.config.map (·.1)).Sublist names :=
  List.Sublist.map Prod.fst List.filter_sublist

theorem config_distinct (t : ProducerTuning) : (t.config.map (·.1)).Nodup :=
  t.config_names.nodup (by decide)

theorem get?_config_none (t : ProducerTuning) {name : String} (hname : name ∉ names) :
    Keyed.get? t.config name = none :=
  Keyed.get?_eq_none fun hmem => hname (t.config_names.subset hmem)

theorem config_of_isDefault {t : ProducerTuning} (h : t.isDefault = true) : t.config = [] := by
  simp only [isDefault, fields, List.all_cons, List.all_nil, Bool.and_true, Bool.and_eq_true] at h
  obtain ⟨hcompression, hacks, hbatch, hlinger, hretries, hidempotence⟩ := h
  have hnull : isNull .null = true := rfl
  simp [config, hcompression, hacks, hbatch, hlinger, hretries, hidempotence, hnull]

end ProducerTuning

/-- What a step sends, and what it asks of the producer for it. -/
structure Sending where
  tuning : ProducerTuning
  servers : Option String
  auth : Option BrokerAuthConfig
  deadline : Binary64
  messages : List (Except Fault Outgoing)

/-- What a step sends, if it sends at all. -/
def Step.sending? : Step → Option Sending
  | .produce step => some ⟨step.tuning, step.bootstrapServers, step.auth, step.timeout,
      [encodeMessage step.topic step.headers step.jsonOptions step.partition step.timestamp step.key
        step.value]⟩
  | .batchProduce step => some ⟨step.tuning, step.bootstrapServers, step.auth, step.timeout,
      step.messagesToSend⟩
  | _ => none

namespace Sending

/-- Whether the step asks for nothing of its own. -/
def plain (s : Sending) : Bool := s.tuning.isDefault && s.servers.isNone && s.auth.isNone

/-- The servers of the step, or those of the settings if it names none. -/
def serversBy (s : Sending) (settings : BrokerSettings) : String :=
  match s.servers with
  | some servers => if servers = "" then settings.bootstrapServers else servers
  | none => settings.bootstrapServers

/-- Whether a configuration is, but for the name of the client, what a step resolves to under the
settings of an engine. -/
structure Configured (s : Sending) (settings : BrokerSettings) (config : ClientConfig) : Prop where
  servers : config.get? "bootstrap.servers" = some (.text (s.serversBy settings))
  security : ∃ strategy, BrokerStrategy.resolve (given s.auth settings.auth) = .ok strategy ∧
    ∀ name ∈ BrokerStrategy.securityNames, config.get? name = strategy.value? name
  tuning : ∀ name ∈ ProducerTuning.names, config.get? name = Keyed.get? s.tuning.config name
  others : ∀ name, name ≠ "client.id" → name ≠ "bootstrap.servers" →
    name ∉ BrokerStrategy.securityNames → name ∉ ProducerTuning.names → config.get? name = none

variable {s other : Sending} {settings : BrokerSettings} {config : ClientConfig}

theorem clientConfig_serversBy (s : Sending) (settings : BrokerSettings) (role suffix : String) :
    settings.clientConfig s.servers s.auth role suffix =
      (BrokerStrategy.resolve (given s.auth settings.auth)).map fun strategy =>
        strategy.applyTo [("bootstrap.servers", .text (s.serversBy settings)),
          ("client.id", .text (settings.clientIdStem ++ "-" ++ role ++ "-" ++ suffix))] := by
  unfold BrokerSettings.clientConfig serversBy
  cases s.servers with
  | none => cases BrokerStrategy.resolve (given s.auth settings.auth) <;> rfl
  | some servers =>
    by_cases hempty : servers = ""
    · subst hempty
      cases BrokerStrategy.resolve (given s.auth settings.auth) <;> rfl
    · cases BrokerStrategy.resolve (given s.auth settings.auth) <;>
        simp [hempty, pure, Except.pure, bind, Except.bind, Except.map]

theorem get?_putAll_applyTo {strategy : BrokerStrategy} (h : strategy.Orderly) (t : ProducerTuning)
    (base : ClientConfig) (name : String) :
    ((strategy.applyTo base).putAll t.config).get? name =
      (Keyed.get? t.config name).or ((strategy.value? name).or (base.get? name)) := by
  rw [ClientConfig.get?_putAll _ t.config_distinct, BrokerStrategy.get?_applyTo h.distinct]

/-- Every entry of the configuration of a client is written by its one owner. -/
theorem configured_of_clientConfig {role suffix : String}
    (h : settings.clientConfig s.servers s.auth role suffix = .ok config) :
    s.Configured settings (config.putAll s.tuning.config) := by
  rw [clientConfig_serversBy] at h
  obtain ⟨strategy, hresolve, rfl⟩ := map_eq_ok.mp h
  have horderly := BrokerStrategy.resolve_orderly hresolve
  have hget := get?_putAll_applyTo horderly s.tuning
    [("bootstrap.servers", .text (s.serversBy settings)),
      ("client.id", .text (settings.clientIdStem ++ "-" ++ role ++ "-" ++ suffix))]
  refine ⟨?_, ⟨strategy, hresolve, ?_⟩, ?_, ?_⟩
  · rw [hget, ProducerTuning.get?_config_none _ (by decide), horderly.value?_none (by decide)]
    rfl
  · intro name hname
    have hapart : ∀ name ∈ BrokerStrategy.securityNames,
        name ∉ ProducerTuning.names ∧ "bootstrap.servers" ≠ name ∧ "client.id" ≠ name := by decide
    obtain ⟨htuning, hservers, hclient⟩ := hapart name hname
    rw [hget, ProducerTuning.get?_config_none _ htuning]
    simp [ClientConfig.get?, Keyed.get?, hservers, hclient]
  · intro name hname
    have hapart : ∀ name ∈ ProducerTuning.names,
        name ∉ BrokerStrategy.securityNames ∧ "bootstrap.servers" ≠ name ∧ "client.id" ≠ name := by
      decide
    obtain ⟨hsecurity, hservers, hclient⟩ := hapart name hname
    rw [hget, horderly.value?_none hsecurity]
    simp [ClientConfig.get?, Keyed.get?, hservers, hclient]
  · intro name hclient hservers hsecurity htuning
    rw [hget, ProducerTuning.get?_config_none _ htuning, horderly.value?_none hsecurity]
    simp [ClientConfig.get?, Keyed.get?, Ne.symm hservers, Ne.symm hclient]

theorem plain_iff : s.plain = true ↔
    s.tuning.isDefault = true ∧ s.servers = none ∧ s.auth = none := by
  simp [plain, and_assoc]

theorem Configured.of_plain (h : s.Configured settings config) (hs : s.plain = true)
    (ho : other.plain = true) : other.Configured settings config := by
  obtain ⟨htuning, hservers, hauth⟩ := plain_iff.mp hs
  obtain ⟨htuning', hservers', hauth'⟩ := plain_iff.mp ho
  have hby : other.serversBy settings = s.serversBy settings := by
    rw [serversBy, serversBy, hservers, hservers']
  refine ⟨hby ▸ h.servers, ?_, ?_, h.others⟩
  · rw [hauth', ← hauth]
    exact h.security
  · rw [ProducerTuning.config_of_isDefault htuning', ← ProducerTuning.config_of_isDefault htuning]
    exact h.tuning

/-- Of the settings, only the servers and the authentication matter. -/
theorem Configured.of_alike {others : BrokerSettings} (h : s.Configured settings config)
    (hservers : settings.bootstrapServers = others.bootstrapServers)
    (hauth : settings.auth = others.auth) : s.Configured others config := by
  have hby : s.serversBy others = s.serversBy settings := by rw [serversBy, serversBy, hservers]
  exact ⟨hby ▸ h.servers, hauth ▸ h.security, h.tuning, h.others⟩

end Sending

end Rehearsal
