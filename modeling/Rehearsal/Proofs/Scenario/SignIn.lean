import Rehearsal.Proofs.Auth.Overlay
import Rehearsal.Proofs.Scenario.Reach

/-! Signing in and TLS settings on a step of a scenario. Each of the two calls replaces the
authentication of the step and takes over what the other has written of it, so the two may be made
in either order. What lets the first of them pass is that the authentication a step already has
resolves. -/

namespace Rehearsal

def BrokerAuthConfig.withTls (auth : Option BrokerAuthConfig) (ssl : SslAuth) : BrokerAuthConfig :=
  match auth with
  | some auth => if auth.type.isSasl then { auth with ssl := some ssl } else .ofSsl ssl
  | none => .ofSsl ssl

theorem BrokerAuthConfig.withTls_ssl (auth : Option BrokerAuthConfig) (ssl : SslAuth) :
    (withTls auth ssl).ssl = some ssl := by
  cases auth with
  | none => rfl
  | some auth =>
    simp only [withTls]
    split <;> rfl

namespace SaslMechanism

theorem config_isSasl (mechanism : SaslMechanism) (sasl : SaslAuth) (ssl : Option SslAuth) :
    (mechanism.config sasl ssl).type.isSasl = true := by
  cases mechanism <;> rfl

theorem config_with (mechanism : SaslMechanism) (sasl : SaslAuth) (old ssl : Option SslAuth) :
    { mechanism.config sasl old with ssl := ssl } = mechanism.config sasl ssl := by
  cases mechanism <;> rfl

theorem config_withTls (mechanism : SaslMechanism) (sasl : SaslAuth) (old : Option SslAuth)
    (ssl : SslAuth) :
    BrokerAuthConfig.withTls (some (mechanism.config sasl old)) ssl =
      mechanism.config sasl (some ssl) := by
  rw [BrokerAuthConfig.withTls, if_pos (mechanism.config_isSasl sasl old), config_with]

end SaslMechanism

namespace BrokerStrategy

def Resolves (auth : Option BrokerAuthConfig) : Prop := ∃ strategy, resolve auth = .ok strategy

theorem resolves_sasl {config : BrokerAuthConfig} (h : config.type.isSasl = true)
    (ssl : Option SslAuth) :
    Resolves (some { config with ssl := ssl }) ↔ Resolves (some { config with ssl := none }) ∧
      ∀ auth, ssl = some auth → ofSsl auth false = .ok auth := by
  rw [Resolves, resolve_sasl h]
  constructor
  · rintro ⟨both, hboth⟩
    obtain ⟨strategy, hmade, hover⟩ := bind_eq_ok.mp hboth
    refine ⟨⟨strategy, hmade⟩, ?_⟩
    rintro auth rfl
    obtain ⟨made, hssl, -⟩ := map_eq_ok.mp hover
    exact (ofSsl_ok hssl).2
  · rintro ⟨⟨strategy, hmade⟩, hssl⟩
    rw [hmade, ok_bind]
    cases ssl with
    | none => exact ⟨strategy, rfl⟩
    | some auth =>
      rw [withOverlay, hssl auth rfl]
      exact ⟨_, rfl⟩

theorem resolves_ofSsl (ssl : SslAuth) :
    Resolves (some (.ofSsl ssl)) ↔ ofSsl ssl false = .ok ssl := by
  constructor
  · rintro ⟨strategy, hmade⟩
    obtain ⟨_, hpayload, hmade⟩ := bind_eq_ok.mp hmade
    obtain rfl : ssl = _ := Except.ok.inj hpayload
    obtain ⟨made, hssl, -⟩ := bind_eq_ok.mp hmade
    exact (ofSsl_ok hssl).2
  · intro hssl
    exact ⟨.ssl ssl, bind_eq_ok.mpr ⟨ssl, rfl, bind_eq_ok.mpr ⟨ssl, hssl, rfl⟩⟩⟩

theorem Resolves.ssl {config : BrokerAuthConfig} (h : Resolves (some config)) {auth : SslAuth}
    (hssl : config.ssl = some auth) : ofSsl auth false = .ok auth := by
  by_cases hsasl : config.type.isSasl = true
  · exact ((resolves_sasl hsasl config.ssl).mp h).2 auth hssl
  · obtain ⟨type, plain, scram, ssl⟩ := config
    obtain rfl : ssl = some auth := hssl
    obtain ⟨strategy, hmade⟩ := h
    cases type with
    | none =>
      obtain ⟨made, hmade, -⟩ := map_eq_ok.mp hmade
      exact (ofSsl_ok hmade).2
    | ssl =>
      obtain ⟨_, hpayload, hmade⟩ := bind_eq_ok.mp hmade
      obtain rfl : auth = _ := Except.ok.inj hpayload
      obtain ⟨made, hmade, -⟩ := bind_eq_ok.mp hmade
      exact (ofSsl_ok hmade).2
    | mutualTls =>
      obtain ⟨_, hpayload, hmade⟩ := bind_eq_ok.mp hmade
      obtain rfl : auth = _ := Except.ok.inj hpayload
      obtain ⟨made, hmade, -⟩ := bind_eq_ok.mp hmade
      exact (ofSsl_ok hmade).2
    | unknown text => cases hmade
    | _ => exact absurd rfl hsasl

theorem Resolves.withTls {auth : Option BrokerAuthConfig} (h : Resolves auth) {ssl : SslAuth}
    (hssl : ofSsl ssl false = .ok ssl) : Resolves (some (BrokerAuthConfig.withTls auth ssl)) := by
  cases auth with
  | none => exact (resolves_ofSsl ssl).mpr hssl
  | some config =>
    by_cases hsasl : config.type.isSasl = true
    · rw [BrokerAuthConfig.withTls, if_pos hsasl, resolves_sasl hsasl]
      refine ⟨((resolves_sasl hsasl config.ssl).mp h).1, ?_⟩
      intro found hfound
      exact Option.some.inj hfound ▸ hssl
    · rw [BrokerAuthConfig.withTls, if_neg hsasl]
      exact (resolves_ofSsl ssl).mpr hssl

theorem Resolves.config {mechanism : SaslMechanism} {sasl : SaslAuth} {ssl : Option SslAuth}
    (h : Resolves (some (mechanism.config sasl ssl))) {auth : Option BrokerAuthConfig}
    (hauth : Resolves auth) : Resolves (some (mechanism.config sasl (auth.bind (·.ssl)))) := by
  have hsasl := mechanism.config_isSasl sasl ssl
  have halone := ((resolves_sasl hsasl ssl).mp (by rwa [mechanism.config_with])).1
  rw [← mechanism.config_with sasl ssl, resolves_sasl hsasl]
  refine ⟨halone, ?_⟩
  intro found hfound
  cases auth with
  | none => cases hfound
  | some config => exact hauth.ssl hfound

end BrokerStrategy

namespace Engine

variable {e e' : Engine}

/-- Whether a scenario is describing this step, one with a broker. -/
def Describes (e : Engine) (step : Step) : Prop :=
  e.stage = .building ∧ e.current = some step ∧ step.variant ∈ Variant.brokerSteps

theorem require_brokerSteps (e : Engine) (operation : String) (step : Step) :
    e.require operation Variant.brokerSteps = .ok step ↔ e.Describes step :=
  ⟨require_ok, fun ⟨hb, hc, hv⟩ => require_of hb hc hv operation⟩

theorem Describes.setStep {step new : Step} (h : e.Describes step)
    (hv : new.variant = step.variant) : (e.setStep new).Describes new :=
  ⟨h.1, rfl, hv ▸ h.2.2⟩

theorem Describes.eq {step other : Step} (h : e.Describes step) (h' : e.Describes other) :
    step = other :=
  Option.some.inj (h.2.1.symm.trans h'.2.1)

/-- A call that gives a step an authentication looks only at whether it resolves. -/
theorem setBrokerAuth_eq_ok (h : e.Sound) (operation : String) (config : BrokerAuthConfig) :
    e.setBrokerAuth operation (some config) = .ok e' ↔ ∃ step, e.Describes step ∧
      BrokerStrategy.Resolves (some config) ∧
      e' = e.setStep (step.withBrokerAuth (some config)) := by
  constructor
  · intro hset
    obtain ⟨step, hstep, hset⟩ := bind_eq_ok.mp hset
    obtain ⟨strategy, hmade, hset⟩ := bind_eq_ok.mp hset
    obtain ⟨old, new, hold, hnew, rfl⟩ := evolve_ok hset
    have hdescribes := (require_brokerSteps e operation old).mp hold
    rw [Step.evolve_brokerAuth hdescribes.2.2 (h old hdescribes.2.1).1] at hnew
    cases hnew
    exact ⟨old, hdescribes, ⟨strategy, hmade⟩, rfl⟩
  · rintro ⟨step, hdescribes, ⟨strategy, hmade⟩, rfl⟩
    have hstep := (require_brokerSteps e operation step).mpr hdescribes
    have hnew := Step.evolve_brokerAuth hdescribes.2.2 (h step hdescribes.2.1).1 (some config)
    simp only [setBrokerAuth, evolve, hstep, hmade, hnew, ok_bind]
    rfl

variable {mechanism : SaslMechanism} {sasl : SaslAuth} {ssl : SslAuth}

theorem construct_ssl_eq_ok (h : e.Sound) :
    e.construct (.ssl ssl) = .ok e' ↔ ∃ step, e.Describes step ∧
      BrokerStrategy.Resolves (some (.withTls step.brokerAuth ssl)) ∧
      e' = e.setStep (step.withBrokerAuth (some (.withTls step.brokerAuth ssl))) := by
  constructor
  · intro hset
    obtain ⟨step, hstep, hset⟩ := bind_eq_ok.mp hset
    obtain ⟨other, hother, hrest⟩ := (setBrokerAuth_eq_ok h _ _).mp hset
    obtain rfl := ((require_brokerSteps e _ step).mp hstep).eq hother
    exact ⟨step, hother, hrest⟩
  · rintro ⟨step, hdescribes, hrest⟩
    exact bind_eq_ok.mpr ⟨step, (require_brokerSteps e _ step).mpr hdescribes,
      (setBrokerAuth_eq_ok h _ _).mpr ⟨step, hdescribes, hrest⟩⟩

theorem construct_sasl_eq_ok (h : e.Sound) :
    e.construct (.sasl mechanism sasl) = .ok e' ↔ ∃ step, e.Describes step ∧
      BrokerStrategy.Resolves (some (mechanism.config sasl (step.brokerAuth.bind (·.ssl)))) ∧
      e' = e.setStep
        (step.withBrokerAuth (some (mechanism.config sasl (step.brokerAuth.bind (·.ssl))))) := by
  constructor
  · intro hset
    obtain ⟨step, hstep, hset⟩ := bind_eq_ok.mp hset
    obtain ⟨other, hother, hrest⟩ := (setBrokerAuth_eq_ok h _ _).mp hset
    obtain rfl := ((require_brokerSteps e _ step).mp hstep).eq hother
    exact ⟨step, hother, hrest⟩
  · rintro ⟨step, hdescribes, hrest⟩
    exact bind_eq_ok.mpr ⟨step, (require_brokerSteps e _ step).mpr hdescribes,
      (setBrokerAuth_eq_ok h _ _).mpr ⟨step, hdescribes, hrest⟩⟩

/-- What both orders come to: the step signs in, with the new TLS settings. -/
def SignsInWith (mechanism : SaslMechanism) (sasl : SaslAuth) (ssl : SslAuth) (e e' : Engine) :
    Prop :=
  ∃ step, e.Describes step ∧ BrokerStrategy.Resolves (some (mechanism.config sasl (some ssl))) ∧
    e' = e.setStep (step.withBrokerAuth (some (mechanism.config sasl (some ssl))))

theorem sslFirst_eq_ok (h : e.Sound) :
    (e.construct (.ssl ssl) >>= fun e => e.construct (.sasl mechanism sasl)) = .ok e' ↔
      SignsInWith mechanism sasl ssl e e' := by
  constructor
  · intro hboth
    obtain ⟨middle, hssl, hsasl⟩ := bind_eq_ok.mp hboth
    have hsound := h.construct hssl
    obtain ⟨step, hdescribes, -, rfl⟩ := (construct_ssl_eq_ok h).mp hssl
    obtain ⟨new, hnew, hresolves, rfl⟩ := (construct_sasl_eq_ok hsound).mp hsasl
    obtain rfl := (hdescribes.setStep (step.variant_withBrokerAuth _)).eq hnew
    rw [Step.brokerAuth_withBrokerAuth hdescribes.2.2, Option.bind_some,
      BrokerAuthConfig.withTls_ssl] at hresolves ⊢
    rw [Step.withBrokerAuth_again]
    exact ⟨step, hdescribes, hresolves, rfl⟩
  · rintro ⟨step, hdescribes, hresolves, rfl⟩
    have hauth := (h step hdescribes.2.1).2
    have hpair := hresolves.ssl (by cases mechanism <;> rfl)
    have hssl := (construct_ssl_eq_ok h).mpr ⟨step, hdescribes, BrokerStrategy.Resolves.withTls
      hauth hpair, rfl⟩
    refine bind_eq_ok.mpr ⟨_, hssl, (construct_sasl_eq_ok (h.construct hssl)).mpr ⟨_,
      hdescribes.setStep (step.variant_withBrokerAuth _), ?_⟩⟩
    rw [Step.brokerAuth_withBrokerAuth hdescribes.2.2, Option.bind_some,
      BrokerAuthConfig.withTls_ssl, Step.withBrokerAuth_again]
    exact ⟨hresolves, rfl⟩

theorem saslFirst_eq_ok (h : e.Sound) :
    (e.construct (.sasl mechanism sasl) >>= fun e => e.construct (.ssl ssl)) = .ok e' ↔
      SignsInWith mechanism sasl ssl e e' := by
  constructor
  · intro hboth
    obtain ⟨middle, hsasl, hssl⟩ := bind_eq_ok.mp hboth
    have hsound := h.construct hsasl
    obtain ⟨step, hdescribes, -, rfl⟩ := (construct_sasl_eq_ok h).mp hsasl
    obtain ⟨new, hnew, hresolves, rfl⟩ := (construct_ssl_eq_ok hsound).mp hssl
    obtain rfl := (hdescribes.setStep (step.variant_withBrokerAuth _)).eq hnew
    rw [Step.brokerAuth_withBrokerAuth hdescribes.2.2, mechanism.config_withTls] at hresolves ⊢
    rw [Step.withBrokerAuth_again]
    exact ⟨step, hdescribes, hresolves, rfl⟩
  · rintro ⟨step, hdescribes, hresolves, rfl⟩
    have hauth := (h step hdescribes.2.1).2
    have hsasl := (construct_sasl_eq_ok h).mpr ⟨step, hdescribes, hresolves.config hauth, rfl⟩
    refine bind_eq_ok.mpr ⟨_, hsasl, (construct_ssl_eq_ok (h.construct hsasl)).mpr ⟨_,
      hdescribes.setStep (step.variant_withBrokerAuth _), ?_⟩⟩
    rw [Step.brokerAuth_withBrokerAuth hdescribes.2.2, mechanism.config_withTls,
      Step.withBrokerAuth_again]
    exact ⟨hresolves, rfl⟩

/-- Whatever authentication the step of a scenario has, TLS settings and a sign-in may be added to
it in either order: one succeeds if and only if the other does, the scenarios they end in are
equal, and the step signs in with the credentials of the call and has the new TLS settings. On a
step with a broker both succeed whenever that sign-in resolves. -/
theorem ssl_and_sasl_in_any_order (h : e.Reachable) (mechanism : SaslMechanism) (sasl : SaslAuth)
    (ssl : SslAuth) :
    let sslFirst := e.construct (.ssl ssl) >>= fun e => e.construct (.sasl mechanism sasl)
    let saslFirst := e.construct (.sasl mechanism sasl) >>= fun e => e.construct (.ssl ssl)
    let both := mechanism.config sasl (some ssl)
    (∀ e', sslFirst = .ok e' ↔ saslFirst = .ok e') ∧
    (∀ e', sslFirst = .ok e' → ∃ old new, e.current = some old ∧ e' = e.setStep new ∧
      new = old.withBrokerAuth (some both) ∧ new.brokerAuth = some both) ∧
    (∀ step, e.stage = .building → e.current = some step → step.variant ∈ Variant.brokerSteps →
      ((∃ e', sslFirst = .ok e') ↔
        ∃ strategy, BrokerStrategy.resolve (some both) = .ok strategy)) := by
  intro sslFirst saslFirst both
  have hsound := h.sound
  refine ⟨?_, ?_, ?_⟩
  · intro e'
    exact (sslFirst_eq_ok hsound).trans (saslFirst_eq_ok hsound).symm
  · intro e' hok
    obtain ⟨step, hdescribes, -, rfl⟩ := (sslFirst_eq_ok hsound).mp hok
    exact ⟨step, _, hdescribes.2.1, rfl, rfl,
      Step.brokerAuth_withBrokerAuth hdescribes.2.2 (some both)⟩
  · intro step hb hc hv
    constructor
    · rintro ⟨e', hok⟩
      obtain ⟨_, -, hresolves, -⟩ := (sslFirst_eq_ok hsound).mp hok
      exact hresolves
    · intro hresolves
      exact ⟨_, (sslFirst_eq_ok hsound).mpr ⟨step, ⟨hb, hc, hv⟩, hresolves, rfl⟩⟩

/-- A message whose step was to use mutual TLS. -/
theorem ssl_and_sasl_in_any_order_mutualTls :
    let run : Runner Unit := Executor.runner fun _ _ world => (.error (.badValue ""), world)
    let pair : SslAuth := ⟨.null, .text "/client.pem", .text "/client.key", .null, .bool true⟩
    let calls : List Call := [.construct (.topic (.text "orders")),
      .construct (.produce [.text "hello"]),
      .construct (.brokerAuth "with_mutual_tls" (some (.ofMutualTls pair)))]
    let e := (Engine.callAll run { settings := {} } () calls).1
    let sasl : SaslAuth := ⟨.text "ada", .text "secret", .bool true⟩
    let ssl : SslAuth := ⟨.text "/ca.pem", .null, .null, .null, .bool true⟩
    e.Reachable ∧ ∃ e', e'.current.bind Step.brokerAuth = some (.ofScram256 sasl (some ssl)) ∧
      (e.construct (.ssl ssl) >>= fun e => e.construct (.sasl .scram256 sasl)) = .ok e' ∧
      (e.construct (.sasl .scram256 sasl) >>= fun e => e.construct (.ssl ssl)) = .ok e' := by
  intro run pair calls e sasl ssl
  have hreach : e.Reachable :=
    (Reachable.fresh {} .empty).callAll (Executor.runner_keeps _) () calls
  obtain ⟨horder, hends, hwhen⟩ := ssl_and_sasl_in_any_order hreach .scram256 sasl ssl
  have hb : e.stage = .building := by decide +kernel
  have hvariant : e.current.map Step.variant = some .produce := by decide +kernel
  obtain ⟨step, hc, hv⟩ := Option.map_eq_some_iff.mp hvariant
  have hmade : BrokerStrategy.resolve (some (.ofScram256
      ⟨.text "ada", .text "secret", .bool true⟩
      (some ⟨.text "/ca.pem", .null, .null, .null, .bool true⟩))) =
      .ok (.composite (.saslScram (.text "ada") (.text "secret") (.bool true) "SCRAM-SHA-256")
        (.overlay ssl)) := rfl
  have hresolves : BrokerStrategy.Resolves (some (.ofScram256 sasl (some ssl))) := ⟨_, hmade⟩
  obtain ⟨e', hok⟩ := (hwhen step hb hc (hv ▸ by decide)).mpr hresolves
  obtain ⟨old, new, -, rfl, -, hauth⟩ := hends e' hok
  exact ⟨hreach, e.setStep new, hauth, hok, (horder _).mp hok⟩

end Engine

end Rehearsal
