import Rehearsal.Auth.Broker
import Rehearsal.Proofs.Fallible
import Rehearsal.Proofs.Keyed

/-! Signing in and transport settings laid over the configuration of a client. Each writes names of
its own, so however often and in whichever order the two are applied, every name holds in the end
what the one that owns it writes, and the names of neither are left alone. -/

namespace Rehearsal

theorem ClientConfig.get?_putAll (config : ClientConfig) {more : List (String × Value)}
    (hd : (more.map (·.1)).Nodup) (name : String) :
    (config.putAll more).get? name = (Keyed.get? more name).or (config.get? name) :=
  Keyed.get?_putAll config hd name

namespace BrokerStrategy

def signInNames : List String :=
  ["security.protocol", "sasl.mechanism", "sasl.username", "sasl.password"]

def transportNames : List String :=
  ["enable.ssl.certificate.verification", "ssl.ca.location", "ssl.certificate.location",
    "ssl.key.location", "ssl.key.password"]

def value? (strategy : BrokerStrategy) (name : String) : Option Value :=
  Keyed.get? strategy.entries name

def applyAll (strategies : List BrokerStrategy) (config : ClientConfig) : ClientConfig :=
  strategies.foldl (fun config strategy => strategy.applyTo config) config

theorem signIn_names (mechanism : String) (username password useSsl : Value) :
    (signIn mechanism username password useSsl).map (·.1) = signInNames := rfl

theorem transport_names (auth : SslAuth) :
    ((transport auth).map (·.1)).Sublist transportNames := by
  simp only [transport]
  cases auth.caLocation.truthy <;>
    cases auth.certificateLocation.truthy && auth.keyLocation.truthy <;>
    cases auth.keyPassword.truthy <;>
    simp only [Bool.false_eq_true, if_true, if_false, List.map_cons, List.map_nil,
      List.cons_append, List.nil_append, List.append_nil] <;>
    decide

theorem disjoint_names : ∀ name ∈ signInNames, name ∉ transportNames := by decide

/-- Whether no name occurs twice among the entries of a strategy. -/
def Distinct (strategy : BrokerStrategy) : Prop := (strategy.entries.map (·.1)).Nodup

theorem get?_applyTo {strategy : BrokerStrategy} (hd : strategy.Distinct) (config : ClientConfig)
    (name : String) :
    (strategy.applyTo config).get? name = (strategy.value? name).or (config.get? name) :=
  config.get?_putAll hd name

theorem get?_applyAll_none {strategies : List BrokerStrategy}
    (hd : ∀ strategy ∈ strategies, strategy.Distinct) {name : String}
    (hnone : ∀ strategy ∈ strategies, strategy.value? name = none) (config : ClientConfig) :
    (applyAll strategies config).get? name = config.get? name := by
  induction strategies generalizing config with
  | nil => rfl
  | cons first rest ih =>
    have hfirst : (first.applyTo config).get? name = config.get? name := by
      rw [get?_applyTo (hd first List.mem_cons_self), hnone first List.mem_cons_self]
      rfl
    rw [← hfirst]
    exact ih (fun s hs => hd s (List.mem_cons_of_mem _ hs))
      (fun s hs => hnone s (List.mem_cons_of_mem _ hs)) (first.applyTo config)

theorem get?_applyAll_some {strategies : List BrokerStrategy}
    (hd : ∀ strategy ∈ strategies, strategy.Distinct) {name : String} {value : Value}
    (hagree : ∀ strategy ∈ strategies,
      strategy.value? name = none ∨ strategy.value? name = some value)
    (hsome : ∃ strategy ∈ strategies, strategy.value? name = some value)
    (config : ClientConfig) : (applyAll strategies config).get? name = some value := by
  induction strategies generalizing config with
  | nil =>
    obtain ⟨_, hmem, -⟩ := hsome
    cases hmem
  | cons first rest ih =>
    have hdrest : ∀ s ∈ rest, s.Distinct := fun s hs => hd s (List.mem_cons_of_mem _ hs)
    have hrest : ∀ s ∈ rest, s.value? name = none ∨ s.value? name = some value :=
      fun s hs => hagree s (List.mem_cons_of_mem _ hs)
    by_cases hlater : ∃ s ∈ rest, s.value? name = some value
    · exact ih hdrest hrest hlater (first.applyTo config)
    · -- the first writes the name, and what comes after it leaves the name alone
      have hnone : ∀ s ∈ rest, s.value? name = none := by
        intro s hs
        rcases hrest s hs with h | h
        · exact h
        · exact absurd ⟨s, hs, h⟩ hlater
      have hfirst : first.value? name = some value := by
        obtain ⟨s, hs, hv⟩ := hsome
        rcases List.mem_cons.mp hs with rfl | hs
        · exact hv
        · exact absurd ⟨s, hs, hv⟩ hlater
      have hput : (first.applyTo config).get? name = some value := by
        rw [get?_applyTo (hd first List.mem_cons_self), hfirst]
        rfl
      rw [← hput]
      exact get?_applyAll_none hdrest hnone (first.applyTo config)

theorem nodup_applyTo (strategy : BrokerStrategy) {config : ClientConfig}
    (hd : (config.map (·.1)).Nodup) : ((strategy.applyTo config).map (·.1)).Nodup :=
  Keyed.nodup_putAll hd strategy.entries

theorem nodup_applyAll (strategies : List BrokerStrategy) {config : ClientConfig}
    (hd : (config.map (·.1)).Nodup) : ((applyAll strategies config).map (·.1)).Nodup := by
  induction strategies generalizing config with
  | nil => exact hd
  | cons first rest ih => exact ih (first.nodup_applyTo hd)

/-! What a configuration that signs in resolves to. -/

theorem resolve_sasl {config : BrokerAuthConfig} (h : config.type.isSasl = true)
    (ssl : Option SslAuth) :
    resolve (some { config with ssl := ssl }) =
      resolve (some { config with ssl := none }) >>= fun strategy => withOverlay strategy ssl := by
  have hlater : ∀ {made : Except Fault BrokerStrategy},
      (made >>= fun s => withOverlay s ssl) =
        (made >>= fun s => withOverlay s none) >>= fun s => withOverlay s ssl := by
    intro made
    cases made <;> rfl
  obtain ⟨type, plain, scram, _⟩ := config
  cases type with
  | saslPlain =>
    cases plain with
    | none => rfl
    | some auth => exact hlater
  | saslScram256 =>
    cases scram with
    | none => rfl
    | some auth => exact hlater
  | saslScram512 =>
    cases scram with
    | none => rfl
    | some auth => exact hlater
  | _ => cases h

/-- Whether a strategy writes the names of a sign-in and nothing else. -/
def SignsIn (strategy : BrokerStrategy) : Prop :=
  ∃ mechanism username password useSsl,
    strategy.entries = signIn mechanism username password useSsl

theorem ofPlain_signsIn {auth : SaslAuth} {strategy : BrokerStrategy}
    (h : ofPlain auth = .ok strategy) : strategy.SignsIn := by
  obtain ⟨username, -, h⟩ := bind_eq_ok.mp h
  obtain ⟨password, -, h⟩ := bind_eq_ok.mp h
  cases h
  exact ⟨_, _, _, _, rfl⟩

theorem ofScram_signsIn {mechanism : String} {auth : SaslAuth} {strategy : BrokerStrategy}
    (h : ofScram mechanism auth = .ok strategy) : strategy.SignsIn := by
  obtain ⟨username, -, h⟩ := bind_eq_ok.mp h
  obtain ⟨password, -, h⟩ := bind_eq_ok.mp h
  cases h
  exact ⟨_, _, _, _, rfl⟩

theorem resolve_signsIn {config : BrokerAuthConfig} (h : config.type.isSasl = true)
    {strategy : BrokerStrategy}
    (hmade : resolve (some { config with ssl := none }) = .ok strategy) :
    strategy.SignsIn := by
  obtain ⟨type, plain, scram, _⟩ := config
  cases type with
  | saslPlain =>
    obtain ⟨auth, -, hmade⟩ := bind_eq_ok.mp hmade
    obtain ⟨made, hplain, hmade⟩ := bind_eq_ok.mp hmade
    cases hmade
    exact ofPlain_signsIn hplain
  | saslScram256 =>
    obtain ⟨auth, -, hmade⟩ := bind_eq_ok.mp hmade
    obtain ⟨made, hscram, hmade⟩ := bind_eq_ok.mp hmade
    cases hmade
    exact ofScram_signsIn hscram
  | saslScram512 =>
    obtain ⟨auth, -, hmade⟩ := bind_eq_ok.mp hmade
    obtain ⟨made, hscram, hmade⟩ := bind_eq_ok.mp hmade
    cases hmade
    exact ofScram_signsIn hscram
  | _ => cases h

theorem SignsIn.names {strategy : BrokerStrategy} (h : strategy.SignsIn) :
    strategy.entries.map (·.1) = signInNames := by
  obtain ⟨mechanism, username, password, useSsl, h⟩ := h
  rw [h, signIn_names]

theorem SignsIn.distinct {strategy : BrokerStrategy} (h : strategy.SignsIn) :
    strategy.Distinct := by
  rw [Distinct, h.names]
  decide

theorem SignsIn.value?_none {strategy : BrokerStrategy} (h : strategy.SignsIn) {name : String}
    (hname : name ∉ signInNames) : strategy.value? name = none := by
  apply Keyed.get?_eq_none
  rwa [h.names]

theorem overlay_distinct (auth : SslAuth) : (overlay auth).Distinct :=
  (transport_names auth).nodup (by decide)

theorem overlay_value?_none (auth : SslAuth) {name : String} (hname : name ∉ transportNames) :
    (overlay auth).value? name = none :=
  Keyed.get?_eq_none fun hmem => hname ((transport_names auth).subset hmem)

theorem overlay_protocol (auth : SslAuth) (config : ClientConfig) :
    ((overlay auth).applyTo config).get? "security.protocol" =
      config.get? "security.protocol" := by
  rw [get?_applyTo (overlay_distinct auth), overlay_value?_none auth (by decide)]
  rfl

section Sequence

variable {strategy : BrokerStrategy} {auth : SslAuth} {sequence : List BrokerStrategy}

/-- After a sign-in and transport settings, each applied at least once and in any order, a name
holds what the one of the two that owns it writes. -/
theorem SignsIn.get?_applyAll (h : strategy.SignsIn)
    (honly : ∀ s ∈ sequence, s = strategy ∨ s = overlay auth) (hsign : strategy ∈ sequence)
    (hover : overlay auth ∈ sequence) (config : ClientConfig) (name : String) :
    (applyAll sequence config).get? name =
      (strategy.value? name).or (((overlay auth).value? name).or (config.get? name)) := by
  have hd : ∀ s ∈ sequence, s.Distinct := by
    intro s hs
    rcases honly s hs with rfl | rfl
    · exact h.distinct
    · exact overlay_distinct auth
  -- a name belongs to the sign-in or to the transport settings, never to both
  have hone : strategy.value? name = none ∨ (overlay auth).value? name = none := by
    by_cases hname : name ∈ signInNames
    · exact .inr (overlay_value?_none auth (disjoint_names name hname))
    · exact .inl (h.value?_none hname)
  cases hown : strategy.value? name with
  | some value =>
    have hother : (overlay auth).value? name = none := by
      rcases hone with hnone | hnone
      · rw [hown] at hnone
        cases hnone
      · exact hnone
    refine get?_applyAll_some hd ?_ ⟨strategy, hsign, hown⟩ config
    intro s hs
    rcases honly s hs with rfl | rfl
    · exact .inr hown
    · exact .inl hother
  | none =>
    cases hother : (overlay auth).value? name with
    | some value =>
      refine get?_applyAll_some hd ?_ ⟨overlay auth, hover, hother⟩ config
      intro s hs
      rcases honly s hs with rfl | rfl
      · exact .inl hown
      · exact .inr hother
    | none =>
      refine get?_applyAll_none hd ?_ config
      intro s hs
      rcases honly s hs with rfl | rfl
      · exact hown
      · exact hother

end Sequence

theorem applyTo_composite (first second : BrokerStrategy) (config : ClientConfig) :
    (composite first second).applyTo config = applyAll [first, second] config := by
  simp only [applyTo, applyAll, entries, ClientConfig.putAll, Keyed.putAll, List.foldl_append,
    List.foldl_cons, List.foldl_nil]

theorem ofSsl_ok {ssl made : SslAuth} {requireCertificate : Bool}
    (h : ofSsl ssl requireCertificate = .ok made) : made = ssl ∧ ofSsl ssl false = .ok ssl := by
  simp only [ofSsl] at h
  split at h
  · cases h
  · split at h
    · cases h
    · rename_i hpair _
      cases h
      exact ⟨rfl, by simp only [ofSsl, if_neg hpair, Bool.false_and, Bool.false_eq_true, if_false]⟩

/-- A sign-in that resolves and transport settings that hold together may be applied in any order
and any number of times. The configuration ends up with what the sign-in writes and what the
transport settings write, as it does when the sign-in that carries the settings is applied once;
the settings never touch the security protocol, and other names keep their values. -/
theorem overlays_in_any_order {config : BrokerAuthConfig} (hsasl : config.type.isSasl = true)
    {strategy : BrokerStrategy} (hmade : resolve (some { config with ssl := none }) = .ok strategy)
    {ssl auth : SslAuth} {requireCertificate : Bool}
    (hssl : ofSsl ssl requireCertificate = .ok auth) {sequence : List BrokerStrategy}
    (honly : ∀ s ∈ sequence, s = strategy ∨ s = overlay auth) (hsign : strategy ∈ sequence)
    (hover : overlay auth ∈ sequence) (target : ClientConfig) :
    let after := applyAll sequence target
    (∀ name, after.get? name =
      (strategy.value? name).or (((overlay auth).value? name).or (target.get? name))) ∧
    (∃ both, resolve (some { config with ssl := some ssl }) = .ok both ∧
      (∀ name, after.get? name = (both.applyTo target).get? name) ∧
      ((target.map (·.1)).Nodup → after.Perm (both.applyTo target))) ∧
    (∀ before rest, sequence = before ++ overlay auth :: rest →
      (applyAll (before ++ [overlay auth]) target).get? "security.protocol" =
        (applyAll before target).get? "security.protocol") ∧
    (∀ name, name ∉ signInNames → name ∉ transportNames →
      after.get? name = target.get? name) := by
  intro after
  have hsigns : strategy.SignsIn := resolve_signsIn hsasl hmade
  have hafter := hsigns.get?_applyAll honly hsign hover target
  refine ⟨hafter, ?_, ?_, ?_⟩
  · obtain ⟨rfl, hpair⟩ := ofSsl_ok hssl
    have hboth : resolve (some { config with ssl := some auth }) =
        .ok (composite strategy (overlay auth)) := by
      rw [resolve_sasl hsasl, hmade, ok_bind, withOverlay, hpair]
      rfl
    have hsame : ∀ name, after.get? name =
        ((composite strategy (overlay auth)).applyTo target).get? name := by
      intro name
      rw [hafter, applyTo_composite]
      exact (hsigns.get?_applyAll (by simp) (by simp) (by simp) target name).symm
    refine ⟨_, hboth, hsame, fun hd => ?_⟩
    exact Keyed.perm_of_get? (nodup_applyAll sequence hd) (nodup_applyTo _ hd) hsame
  · intro before rest _
    have hlast : applyAll (before ++ [overlay auth]) target =
        (overlay auth).applyTo (applyAll before target) := by
      simp only [applyAll, List.foldl_append, List.foldl_cons, List.foldl_nil]
    rw [hlast, overlay_protocol]
  · intro name hs ht
    rw [hafter, hsigns.value?_none hs, overlay_value?_none auth ht]
    rfl

/-- A client that was set up for TLS alone signs in over it, the settings applied before and
after. -/
theorem overlays_in_any_order_stale :
    let config := BrokerAuthConfig.ofScram512 ⟨.text "ada", .text "secret", .bool true⟩ none
    let ssl : SslAuth := ⟨.text "/ca.pem", .null, .null, .null, .bool false⟩
    let target : ClientConfig := [("security.protocol", .text "SSL"),
      ("ssl.ca.location", .text "/old.pem"), ("client.id", .text "tests")]
    ∃ strategy, resolve (some config) = .ok strategy ∧ ofSsl ssl false = .ok ssl ∧
      let after := applyAll [overlay ssl, strategy, overlay ssl, strategy, overlay ssl] target
      after.get? "security.protocol" = some (.text "SASL_SSL") ∧
      after.get? "ssl.ca.location" = some (.text "/ca.pem") ∧
      after.get? "client.id" = some (.text "tests") := by
  intro config ssl target
  let strategy := saslScram (.text "ada") (.text "secret") (.bool true) "SCRAM-SHA-512"
  have hmade : resolve (some { config with ssl := none }) = .ok strategy := rfl
  have hssl : ofSsl ssl false = .ok ssl := rfl
  obtain ⟨hafter, -, -, hother⟩ := overlays_in_any_order rfl hmade hssl
    (by simp : ∀ s ∈ [overlay ssl, strategy, overlay ssl, strategy, overlay ssl],
      s = strategy ∨ s = overlay ssl) (by simp) (by simp) target
  refine ⟨strategy, hmade, hssl, ?_, ?_, ?_⟩
  · rw [hafter]
    rfl
  · rw [hafter]
    rfl
  · rw [hother _ (by decide) (by decide)]
    rfl

end BrokerStrategy

end Rehearsal
