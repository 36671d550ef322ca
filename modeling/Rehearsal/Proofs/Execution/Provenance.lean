import Rehearsal.Proofs.Execution.Clients
import Rehearsal.Proofs.Execution.Laws

/-! Which producer the messages of a step go through. The producer of a step that asks for something
of its own is configured for that step. A step that asks for nothing sends through the producer that
is shared, and that one is configured for the first such step of the run. -/

namespace Rehearsal

namespace Sending

def call (s : Sending) (config : ClientConfig) : PoolCall :=
  if s.plain then .sharedProducer config none else .createProducer config none

/-- A pool after the calls of a producer, which is released if it belongs to the step alone. -/
def worn (s : Sending) (p : Pool) (client calls : Nat) : Pool :=
  let p := { p with log := p.log ++ List.replicate calls (.used client) }
  if s.plain then p else p.dispose client

open Pool

/-- All that sending can do to a pool, with the producer and the number of its calls if it comes to
that. -/
inductive Sent (s : Sending) (settings : BrokerSettings) (p : Pool) :
    Option (Nat × Nat) → Pool → Prop
  | unresolved (unresolved : ∀ strategy,
      BrokerStrategy.resolve (given s.auth settings.auth) ≠ .ok strategy) :
      Sent s settings p none p
  | refused {config : ClientConfig} {fault : Fault} {q : Pool}
      (configured : s.Configured settings config)
      (refused : Asked p (s.call config) (.error fault) q) : Sent s settings p none q
  | idle {config : ClientConfig} {fault : Fault} {q r : Pool} {client : Nat}
      (configured : s.Configured settings config)
      (given : Asked p (s.call config) (.ok (some client)) q)
      (idle : Asked q (.executor none) (.error fault) r) : Sent s settings p none r
  | sent {config : ClientConfig} {q r : Pool} {client crew : Nat} (calls : Nat)
      (configured : s.Configured settings config)
      (given : Asked p (s.call config) (.ok (some client)) q)
      (workers : Asked q (.executor none) (.ok (some crew)) r) :
      Sent s settings p (some (client, calls)) (s.worn r client calls)

end Sending

namespace World

open Pool

variable {settings : Settings} {s : Sending}

theorem producer_asked (w : World) (settings : Settings) (s : Sending) :
    let after := w.producer settings s.tuning s.servers s.auth
    (∃ fault, after = (.error fault, w) ∧ ∀ strategy,
      BrokerStrategy.resolve (given s.auth settings.broker.auth) ≠ .ok strategy) ∨
    ∃ config, s.Configured settings.broker config ∧ after.2 = { w with pool := after.2.pool } ∧
      Asked w.pool (s.call config) (after.1.map fun producer => some producer.1) after.2.pool ∧
      ∀ producer, after.1 = .ok producer → producer.2 = !s.plain := by
  intro after
  simp only [after, producer]
  split
  · rename_i fault hfailed
    refine .inl ⟨fault, rfl, fun strategy hresolve => ?_⟩
    rw [Sending.clientConfig_serversBy, hresolve] at hfailed
    cases hfailed
  · rename_i config hconfig
    have hplain : (s.tuning.isDefault && s.servers.isNone && s.auth.isNone) = s.plain := rfl
    refine .inr ⟨_, Sending.configured_of_clientConfig hconfig, rfl, ?_, ?_⟩
    · have hmap : ∀ acquired : Except Fault Nat × Pool,
          ((acquired.1.map fun client => (client, !s.plain)).map fun producer => some producer.1) =
            acquired.1.map some := by
        intro acquired
        cases acquired.1 <;> rfl
      rw [hplain, withPool, hmap, Sending.call]
      cases s.plain
      · exact w.pool.asked (.createProducer _ none)
      · exact w.pool.asked (.sharedProducer _ none)
    · intro producer hproducer
      obtain ⟨client, -, rfl⟩ := map_eq_ok.mp hproducer
      rw [hplain]

theorem sendAll_sent (w : World) (settings : Settings) (s : Sending) :
    let after := w.sendAll settings s.tuning s.servers s.auth s.deadline s.messages
    let sends := w.cluster.prepare s.messages
    let schedule := w.cluster.schedule s.deadline sends
    (∃ fault, after.1 = .error fault ∧ s.Sent settings.broker w.pool none after.2.pool) ∨
    ∃ outcomes client, after.1 = .ok outcomes ∧
      after.2.cluster = (w.cluster.performBy sends schedule).2.spend
        (Cluster.callsIn sends schedule) ∧
      s.Sent settings.broker w.pool (some (client, Cluster.callsIn sends schedule))
        after.2.pool := by
  intro after sends schedule
  simp only [after, sendAll]
  -- nothing is asked of the pool without a configuration; else the producer is, then the workers
  rcases w.producer_asked settings s with ⟨fault, hfailed, hunresolved⟩ |
    ⟨config, hconfigured, hrest, hasked, howned⟩
  · rw [hfailed]
    exact .inl ⟨fault, rfl, .unresolved hunresolved⟩
  · rcases hproducer : w.producer settings s.tuning s.servers s.auth with
      ⟨fault | ⟨client, owned⟩, w₁⟩
    · rw [hproducer] at hasked
      exact .inl ⟨fault, rfl, .refused hconfigured hasked⟩
    · rw [hproducer] at hasked hrest howned
      have hown : owned = !s.plain := howned _ rfl
      have hcluster : w₁.cluster = w.cluster := by rw [show w₁ = _ from hrest]
      have hworkers : Asked w₁.pool (.executor none) ((w₁.pool.executor none).1.map some)
          (w₁.pool.executor none).2 := w₁.pool.asked_executor none
      simp only [withPool]
      cases hcrew : (w₁.pool.executor none).1 with
      | error fault =>
        rw [hcrew] at hworkers
        exact .inl ⟨fault, rfl, .idle hconfigured hasked hworkers⟩
      | ok crew =>
        rw [hcrew] at hworkers
        refine .inr ⟨_, client, rfl, ?_, ?_⟩
        · simp only [sendBy, hcluster]
          cases owned <;> rfl
        · have hsent := Sending.Sent.sent (Cluster.callsIn sends schedule) hconfigured hasked
            hworkers
          simp only [Sending.worn] at hsent
          simp only [sendBy, hcluster, hown]
          cases hplain : s.plain with
          | true => simpa [hplain, used, sends, schedule] using hsent
          | false => simpa [hplain, used, sends, schedule] using hsent

/-- A step that sends does what sending its messages does, and returns if that is done. -/
theorem run_sending (w : World) (settings : Settings) {step : Step} (h : step.sending? = some s) :
    let after := w.run settings step
    let sent := w.sendAll settings s.tuning s.servers s.auth s.deadline s.messages
    after.2 = sent.2 ∧ (∀ fault, sent.1 = .error fault → after.1 = .error fault) ∧
      ∀ outcomes, sent.1 = .ok outcomes → ∃ result, after.1 = .ok result := by
  intro after sent
  cases step with
  | produce step =>
    cases h
    simp only [after, run, runProduce]
    rcases hsent : sent with ⟨fault | outcomes, w₁⟩
    · rw [show w.sendAll settings step.tuning step.bootstrapServers step.auth step.timeout _ = _
        from hsent]
      exact ⟨rfl, fun _ h => by cases h; rfl, fun _ h => by cases h⟩
    · rw [show w.sendAll settings step.tuning step.bootstrapServers step.auth step.timeout _ = _
        from hsent]
      exact ⟨rfl, fun _ h => (by cases h), fun _ _ => ⟨_, rfl⟩⟩
  | batchProduce step =>
    cases h
    simp only [after, run, runBatchProduce]
    rcases hsent : sent with ⟨fault | outcomes, w₁⟩
    · rw [show w.sendAll settings step.tuning step.bootstrapServers step.auth step.timeout _ = _
        from hsent]
      exact ⟨rfl, fun _ h => by cases h; rfl, fun _ h => by cases h⟩
    · rw [show w.sendAll settings step.tuning step.bootstrapServers step.auth step.timeout _ = _
        from hsent]
      exact ⟨rfl, fun _ h => (by cases h), fun _ _ => ⟨_, rfl⟩⟩
  | http step => cases h
  | consume step => cases h
  | batchConsume step => cases h

end World

/-- A step that an engine runs under settings of its own, with the world around the pool as it is
then. -/
structure Turn where
  around : World
  settings : Settings
  step : Step

namespace Turn

def world (turn : Turn) (p : Pool) : World := { turn.around with pool := p }

def play (p : Pool) (turn : Turn) : Pool := ((turn.world p).run turn.settings turn.step).2.pool

def playAll (p : Pool) (turns : List Turn) : Pool := turns.foldl play p

/-- Whether a turn sends, asking for nothing of its own, under settings that resolve; the first such
turn opens the shared producer. -/
def founds (turn : Turn) : Bool :=
  turn.step.sending?.any fun s =>
    s.plain && (BrokerStrategy.resolve (given s.auth turn.settings.broker.auth)).isOk

open Pool

/-- The shared producer of a pool is configured for the first turn that could open it. -/
structure Traced (turns : List Turn) (p : Pool) : Prop where
  kept : Kept p
  isOpen : p.isClosed = false
  unfounded : p.shared = none → p.hasBroker = true → turns.find? founds = none
  founded {client : Nat} : p.shared = some client → ∃ source, ∃ s : Sending, ∃ config,
    turns.find? founds = some source ∧ s.plain = true ∧
      s.Configured source.settings.broker config ∧ .opened client (.producer config) ∈ p.log

variable {turns : List Turn} {turn : Turn} {s : Sending} {p q : Pool}

theorem Traced.empty (hasBroker : Bool) : Traced [] (Pool.empty hasBroker) :=
  ⟨Pool.kept hasBroker [], rfl, fun _ _ => rfl, fun h => by cases h⟩

theorem Traced.extends (h : Traced turns p) (he : Extends p q) : Traced turns q := by
  refine ⟨he.kept h.kept, he.isClosed.trans h.isOpen, ?_, ?_⟩
  · intro hnone hbroker
    exact h.unfounded (he.shared.symm.trans hnone) (he.hasBroker.symm.trans hbroker)
  · intro client hshared
    obtain ⟨source, s, config, hfirst, hplain, hconfigured, hopened⟩ :=
      h.founded (he.shared.symm.trans hshared)
    exact ⟨source, s, config, hfirst, hplain, hconfigured, he.log.subset hopened⟩

/-- A turn that could not open the shared producer. -/
theorem Traced.after_other (h : Traced turns p) (hother : turn.founds = false) :
    Traced (turns ++ [turn]) p := by
  have hfind : (turns ++ [turn]).find? founds = turns.find? founds := by
    rw [List.find?_append, List.find?_singleton, hother]
    simp
  refine ⟨h.kept, h.isOpen, ?_, ?_⟩
  · rw [hfind]
    exact h.unfounded
  · rw [hfind]
    exact h.founded

/-- The shared producer is there already. -/
theorem Traced.after_shared (h : Traced turns p) {client : Nat} (hshared : p.shared = some client) :
    Traced (turns ++ [turn]) p := by
  refine ⟨h.kept, h.isOpen, fun hnone => ?_, fun hsome => ?_⟩
  · rw [hshared] at hnone
    cases hnone
  · obtain ⟨source, s, config, hfirst, hrest⟩ := h.founded hsome
    exact ⟨source, s, config, by rw [List.find?_append, hfirst, Option.some_or], hrest⟩

theorem founds_eq (hsend : turn.step.sending? = some s) : turn.founds =
    (s.plain && (BrokerStrategy.resolve (given s.auth turn.settings.broker.auth)).isOk) := by
  rw [founds, hsend, Option.any_some]

/-- The first turn that opens the shared producer has it configured for itself. -/
theorem Traced.asked_shared (h : Traced turns p) {config : ClientConfig}
    {answer : Except Fault (Option Nat)} (hfounds : turn.founds = true) (hplain : s.plain = true)
    (hconfigured : s.Configured turn.settings.broker config)
    (hasked : Asked p (.sharedProducer config none) answer q) : Traced (turns ++ [turn]) q := by
  cases hasked with
  | held hheld => exact h.after_shared hheld
  | refused _ hfree hrefusal =>
    have hnone : p.shared = none := hfree
    have hbroker : p.hasBroker = false := by
      simp only [refusal?, h.isOpen, PoolCall.needsBroker] at hrefusal
      simpa using (Option.ite_none_right_eq_some.mp hrefusal).1
    refine ⟨h.kept, h.isOpen, fun _ hhas => ?_, fun hsome => ?_⟩
    · rw [hbroker] at hhas
      cases hhas
    · rw [hnone] at hsome
      cases hsome
  | failed hwanted _ _ => cases hwanted
  | opened hwanted hfree hadmitted =>
    cases hwanted
    have hbroker : p.hasBroker = true := by
      simpa [refusal?, h.isOpen, PoolCall.needsBroker] using hadmitted
    have hfirst : (turns ++ [turn]).find? founds = some turn := by
      rw [List.find?_append, h.unfounded hfree hbroker, Option.none_or, List.find?_singleton,
        if_pos hfounds]
    refine ⟨h.kept.opening h.isOpen, h.isOpen, fun hnone => (by cases hnone), fun hsome => ?_⟩
    cases hsome
    exact ⟨turn, s, config, hfirst, hplain, hconfigured,
      List.mem_append_right _ (List.mem_singleton.mpr rfl)⟩

theorem Traced.asked (h : Traced turns p) {config : ClientConfig}
    {answer : Except Fault (Option Nat)} (hsend : turn.step.sending? = some s)
    (hconfigured : s.Configured turn.settings.broker config)
    (hasked : Asked p (s.call config) answer q) : Traced (turns ++ [turn]) q := by
  obtain ⟨strategy, hresolve, -⟩ := hconfigured.security
  have hfounds : turn.founds = s.plain := by
    rw [founds_eq hsend, hresolve]
    exact Bool.and_true _
  cases hplain : s.plain with
  | true =>
    rw [Sending.call, hplain, if_pos rfl] at hasked
    exact h.asked_shared (hfounds.trans hplain) hplain hconfigured hasked
  | false =>
    rw [Sending.call, hplain, if_neg (by simp)] at hasked
    exact (h.after_other (hfounds.trans hplain)).extends (hasked.extends (by simp) (by simp))

theorem extends_worn (s : Sending) (p : Pool) (client calls : Nat) :
    Extends p (s.worn p client calls) := by
  rw [Sending.worn]
  cases s.plain
  · exact (p.extends_used client calls).trans (extends_dispose _ client)
  · exact p.extends_used client calls

theorem Traced.sent {given : Option (Nat × Nat)} (h : Traced turns p)
    (hsend : turn.step.sending? = some s) (hsent : s.Sent turn.settings.broker p given q) :
    Traced (turns ++ [turn]) q := by
  cases hsent with
  | unresolved hunresolved =>
    refine h.after_other ?_
    rw [founds_eq hsend]
    cases hresolve : BrokerStrategy.resolve (Rehearsal.given s.auth turn.settings.broker.auth) with
    | error fault => exact Bool.and_false _
    | ok strategy => exact absurd hresolve (hunresolved strategy)
  | refused hconfigured hrefused => exact h.asked hsend hconfigured hrefused
  | idle hconfigured hgiven hidle =>
    exact (h.asked hsend hconfigured hgiven).extends (hidle.extends (by simp) (by simp))
  | sent calls hconfigured hgiven hworkers =>
    exact (h.asked hsend hconfigured hgiven).extends
      ((hworkers.extends (by simp) (by simp)).trans (extends_worn s _ _ calls))

theorem play_sent (hsend : turn.step.sending? = some s) (p : Pool) :
    let w := turn.world p
    let after := w.run turn.settings turn.step
    let sends := w.cluster.prepare s.messages
    (∃ fault, after.1 = .error fault ∧ s.Sent turn.settings.broker p none after.2.pool) ∨
    ∃ result client schedule, after.1 = .ok result ∧
      after.2.cluster = (w.cluster.performBy sends schedule).2.spend
        (Cluster.callsIn sends schedule) ∧
      s.Sent turn.settings.broker p (some (client, Cluster.callsIn sends schedule))
        after.2.pool := by
  intro w after sends
  obtain ⟨hafter, herror, hok⟩ := w.run_sending turn.settings hsend
  rw [hafter]
  rcases w.sendAll_sent turn.settings s with ⟨fault, hfault, hsent⟩ |
    ⟨outcomes, client, houtcomes, hcluster, hsent⟩
  · exact .inl ⟨fault, herror fault hfault, hsent⟩
  · obtain ⟨result, hresult⟩ := hok outcomes houtcomes
    exact .inr ⟨result, client, _, hresult, hcluster, hsent⟩

theorem Traced.play (h : Traced turns p) (turn : Turn) :
    Traced (turns ++ [turn]) (play p turn) := by
  cases hsend : turn.step.sending? with
  | none =>
    have hother : turn.founds = false := by rw [founds, hsend, Option.any_none]
    exact (h.after_other hother).extends ((turn.world p).run_extends turn.settings hsend)
  | some s =>
    rcases play_sent hsend p with ⟨_, -, hsent⟩ | ⟨_, _, _, -, -, hsent⟩
    · exact h.sent hsend hsent
    · exact h.sent hsend hsent

theorem traced (hasBroker : Bool) (turns : List Turn) :
    Traced turns (playAll (Pool.empty hasBroker) turns) := by
  induction turns using List.reverseRecOn with
  | nil => exact .empty hasBroker
  | append_singleton turns turn ih =>
    rw [playAll, List.foldl_append]
    exact ih.play turn

theorem worn_uses (s : Sending) (p : Pool) (client calls : Nat) :
    ∃ more, (s.worn p client calls).log = p.log ++ more ∧
      uses more = List.replicate calls client := by
  have hcalls : uses (List.replicate calls (.used client)) = List.replicate calls client :=
    List.filterMap_replicate_of_some rfl
  rw [Sending.worn]
  cases s.plain with
  | true => exact ⟨_, rfl, hcalls⟩
  | false =>
    refine ⟨List.replicate calls (.used client) ++ [.flushed client, .closed client], ?_, ?_⟩
    · simp [dispose]
    · rw [uses, List.filterMap_append, ← uses, hcalls]
      exact List.append_nil _

theorem sent_uses {given : Option (Nat × Nat)} {settings : BrokerSettings}
    (h : s.Sent settings p given q) : ∃ more, q.log = p.log ++ more ∧
      uses more = given.elim [] fun (client, calls) => List.replicate calls client := by
  cases h with
  | unresolved _ => exact ⟨[], (List.append_nil _).symm, rfl⟩
  | refused _ hrefused => exact hrefused.log
  | idle _ hgiven hidle =>
    obtain ⟨first, hfirst, huses⟩ := hgiven.log
    obtain ⟨second, hsecond, huses'⟩ := hidle.log
    refine ⟨first ++ second, by rw [hsecond, hfirst, List.append_assoc], ?_⟩
    rw [uses, List.filterMap_append, ← uses, ← uses, huses, huses']
    rfl
  | @sent _ _ r client _ calls _ hgiven hworkers =>
    obtain ⟨first, hfirst, huses⟩ := hgiven.log
    obtain ⟨second, hsecond, huses'⟩ := hworkers.log
    obtain ⟨third, hthird, hcalls⟩ := worn_uses s r client calls
    refine ⟨first ++ second ++ third, ?_, ?_⟩
    · rw [hthird, hsecond, hfirst, List.append_assoc, List.append_assoc, List.append_assoc]
    · rw [uses, List.filterMap_append, List.filterMap_append, ← uses, ← uses, ← uses, huses, huses',
        hcalls]
      rfl

theorem sent_producer {settings : BrokerSettings} {client calls : Nat}
    (h : s.Sent settings p (some (client, calls)) q) :
    if s.plain then q.shared = some client
    else ∃ config, s.Configured settings config ∧ .opened client (.producer config) ∈ q.log := by
  cases h with
  | @sent config q r _ _ _ hconfigured hgiven hworkers =>
    have hrest := (hworkers.extends (by simp) (by simp)).trans (extends_worn s r client calls)
    cases hplain : s.plain with
    | true =>
      rw [Sending.call, hplain, if_pos rfl] at hgiven
      rw [if_pos rfl, hrest.shared]
      cases hgiven with
      | held hheld => exact hheld
      | opened hwanted _ _ => rfl
    | false =>
      rw [Sending.call, hplain, if_neg (by simp)] at hgiven
      rw [if_neg (by simp)]
      refine ⟨config, hconfigured, hrest.log.subset ?_⟩
      cases hgiven with
      | held hheld => cases hheld
      | opened hwanted _ _ =>
        cases hwanted
        exact List.mem_append_right _ (List.mem_singleton.mpr rfl)

/-- The messages of a step go through one producer, which was opened with what the step resolves to
but for the name of the client: under the settings of its engine if the step asks for anything of
its own, else under those of the engine that ran the first step which asked for nothing and could
have the shared producer opened. Where all engines name the same servers and the same
authentication, these are the settings of its own engine again. -/
theorem sent_through_configured (hasBroker : Bool) (before : List Turn)
    (hsend : turn.step.sending? = some s) :
    let p := playAll (Pool.empty hasBroker) before
    let w := turn.world p
    let after := w.run turn.settings turn.step
    let sends := w.cluster.prepare s.messages
    ∃ more, after.2.pool.log = p.log ++ more ∧
    ((∃ fault, after.1 = .error fault ∧ uses more = []) ∨
      ∃ result client schedule config, ∃ source : Turn,
        after.1 = .ok result ∧
        after.2.cluster = (w.cluster.performBy sends schedule).2.spend
          (Cluster.callsIn sends schedule) ∧
        uses more = List.replicate (Cluster.callsIn sends schedule) client ∧
        .opened client (.producer config) ∈ after.2.pool.log ∧
        (∀ role, .opened client role ∈ after.2.pool.log → role = .producer config) ∧
        s.Configured source.settings.broker config ∧
        (if s.plain then (before ++ [turn]).find? founds = some source else source = turn) ∧
        ((∀ other ∈ before,
            other.settings.broker.bootstrapServers = turn.settings.broker.bootstrapServers ∧
            other.settings.broker.auth = turn.settings.broker.auth) →
          s.Configured turn.settings.broker config)) := by
  intro p w after sends
  have htraced : Traced (before ++ [turn]) after.2.pool := (traced hasBroker before).play turn
  rcases play_sent hsend p with ⟨fault, hfault, hsent⟩ |
    ⟨result, client, schedule, hresult, hcluster, hsent⟩
  · obtain ⟨more, hlog, huses⟩ := sent_uses hsent
    exact ⟨more, hlog, .inl ⟨fault, hfault, huses⟩⟩
  · obtain ⟨more, hlog, huses⟩ := sent_uses hsent
    have hproducer : ∃ config, ∃ source : Turn,
        .opened client (.producer config) ∈ after.2.pool.log ∧
        s.Configured source.settings.broker config ∧ source ∈ before ++ [turn] ∧
        if s.plain then (before ++ [turn]).find? founds = some source else source = turn := by
      have hused := sent_producer hsent
      -- a plain step goes through the shared producer, any other through one of its own
      cases hplain : s.plain with
      | true =>
        rw [hplain, if_pos rfl] at hused
        obtain ⟨source, other, config, hfirst, hother, hconfigured, hopened⟩ :=
          htraced.founded hused
        exact ⟨config, source, hopened, hconfigured.of_plain hother hplain,
          List.mem_of_find?_eq_some hfirst, hfirst⟩
      | false =>
        rw [hplain, if_neg (by simp)] at hused
        obtain ⟨config, hconfigured, hopened⟩ := hused
        exact ⟨config, turn, hopened, hconfigured, List.mem_append_right _ List.mem_cons_self, rfl⟩
    obtain ⟨config, source, hopened, hconfigured, hmem, hsource⟩ := hproducer
    refine ⟨more, hlog, .inr ⟨result, client, schedule, config, source, hresult, hcluster, huses,
      hopened, fun role hrole => htraced.kept.role_unique hrole hopened, hconfigured, hsource,
      fun halike => ?_⟩⟩
    rcases List.mem_append.mp hmem with hbefore | hlast
    · exact hconfigured.of_alike (halike source hbefore).1 (halike source hbefore).2
    · rwa [List.mem_singleton.mp hlast] at hconfigured

/-- A text that is sent by an engine with servers of its own, to servers of the step if it names
any. -/
def ofText (settings : String) (servers : Option String) : Turn :=
  ⟨.calm (.empty 1 .persisted 0), { broker := { bootstrapServers := settings } },
    .produce ⟨"orders", .text "a", .null, [], none, none, Binary64.ofNat 30, .plain, servers, none,
      []⟩⟩

/-- A step with servers of its own, after the shared producer was opened for another engine. -/
theorem sent_through_configured_own :
    let turn := ofText "two:9092" (some "three:9092")
    let p := playAll (Pool.empty true) [ofText "one:9092" none]
    let after := (turn.world p).run turn.settings turn.step
    ∃ s more client config, turn.step.sending? = some s ∧ after.2.pool.log = p.log ++ more ∧
      uses more = [client] ∧ .opened client (.producer config) ∈ after.2.pool.log ∧
      config.get? "bootstrap.servers" = some (.text "three:9092") := by
  intro turn p after
  obtain ⟨more, hlog, ⟨fault, hfault, -⟩ | ⟨result, client, schedule, config, source, -, -, huses,
    hopened, -, hconfigured, hsource, -⟩⟩ := sent_through_configured true [ofText "one:9092" none]
      (rfl : turn.step.sending? = some _)
  · have hok : after.1.isOk = true := by decide +kernel
    rw [show after.1 = .error fault from hfault] at hok
    cases hok
  · have hlog' : after.2.pool.log = p.log ++ more := hlog
    have hcount : (uses after.2.pool.log).length = (uses p.log).length + 1 := by decide +kernel
    rw [hlog', uses, List.filterMap_append, List.length_append, ← uses, ← uses, huses,
      List.length_replicate] at hcount
    have hone : uses more = [client] := by
      rw [huses, Nat.add_left_cancel hcount]
      rfl
    have hown : source = turn := hsource
    rw [hown] at hconfigured
    exact ⟨_, more, client, config, rfl, hlog', hone, hopened, hconfigured.servers⟩

/-- Of two engines with servers of their own, the second sends through the producer that was opened
for the first. -/
theorem sent_through_configured_elsewhere :
    let turn := ofText "two:9092" none
    let p := playAll (Pool.empty true) [ofText "one:9092" none]
    let after := (turn.world p).run turn.settings turn.step
    ∃ s more client config, turn.step.sending? = some s ∧ after.2.pool.log = p.log ++ more ∧
      uses more = [client] ∧ .opened client (.producer config) ∈ after.2.pool.log ∧
      (∀ role, .opened client role ∈ after.2.pool.log → role = .producer config) ∧
      config.get? "bootstrap.servers" = some (.text "one:9092") ∧
      ¬ s.Configured turn.settings.broker config := by
  intro turn p after
  have htraced : Traced [ofText "one:9092" none, turn] after.2.pool := traced true [_, _]
  have hshared : after.2.pool.shared = some 0 := by decide +kernel
  obtain ⟨source, s, config, hfirst, hplain, hconfigured, hopened⟩ := htraced.founded hshared
  have hfounds : (ofText "one:9092" none).founds = true := by decide +kernel
  rw [List.find?_cons_of_pos hfounds] at hfirst
  cases hfirst
  have hservers : config.get? "bootstrap.servers" = some (.text "one:9092") := by
    rw [hconfigured.servers, Sending.serversBy, (Sending.plain_iff.mp hplain).2.1]
    rfl
  obtain ⟨given, hsent⟩ : ∃ given, Sending.Sent _ turn.settings.broker p given after.2.pool := by
    rcases play_sent (rfl : turn.step.sending? = some _) p with
      ⟨_, -, hsent⟩ | ⟨_, _, _, -, -, hsent⟩
    · exact ⟨_, hsent⟩
    · exact ⟨_, hsent⟩
  obtain ⟨more, hlog, -⟩ := sent_uses hsent
  have huses : uses after.2.pool.log = [0, 0] ∧ uses p.log = [0] := by decide +kernel
  have hone : uses more = [0] := by
    have hall := huses.1
    rw [hlog, uses, List.filterMap_append, ← uses, ← uses, huses.2] at hall
    exact (List.cons.inj hall).2
  refine ⟨_, more, 0, config, rfl, hlog, hone, hopened,
    fun role hrole => htraced.kept.role_unique hrole hopened, hservers, fun hown => ?_⟩
  have hsame : "one:9092" = "two:9092" :=
    Value.text.inj (Option.some.inj (hservers.symm.trans hown.servers))
  exact absurd hsame (by decide)

end Turn

end Rehearsal
