import Mathlib.Data.List.Pairwise
import Rehearsal.Proofs.Execution.Configuration
import Rehearsal.Proofs.Execution.Run
import Rehearsal.Proofs.Pool.Sharing

/-! What steps do to the clients of a pool. What is asked of a pool and the calls of its clients are
written down behind what was there already. A step that sends nothing leaves the shared producer as
it is. -/

namespace Rehearsal

def ClientEvent.used? : ClientEvent → Option Nat
  | .used client => some client
  | _ => none

def uses (log : List ClientEvent) : List Nat := log.filterMap ClientEvent.used?

namespace Pool

variable {p q r : Pool} {call : PoolCall} {answer : Except Fault (Option Nat)} {client : Nat}

theorem Asked.log (h : Asked p call answer q) : ∃ more, q.log = p.log ++ more ∧ uses more = [] := by
  have hreadied : ∃ more, (p.readied call).log = p.log ++ more ∧ uses more = [] := by
    rcases p.readied_cases call with hr | hr
    · exact ⟨[], by rw [hr, List.append_nil], rfl⟩
    · refine ⟨_, by rw [hr, startLoop_eq], ?_⟩
      split <;> rfl
  cases h with
  | held _ => exact ⟨[], (List.append_nil _).symm, rfl⟩
  | refused _ _ _ => exact ⟨[], (List.append_nil _).symm, rfl⟩
  | failed _ _ _ => exact hreadied
  | @opened call role _ _ _ =>
    obtain ⟨more, hlog, huses⟩ := hreadied
    refine ⟨more ++ [.opened p.opened role], by rw [opening_log, hlog, List.append_assoc], ?_⟩
    rw [uses, List.filterMap_append, ← uses, huses]
    rfl
  | cleared =>
    refine ⟨_, rfl, ?_⟩
    simp [uses, ClientEvent.used?]
  | closed =>
    cases hopen : p.isClosed with
    | true => exact ⟨[], by rw [close_closed hopen, List.append_nil], rfl⟩
    | false =>
      refine ⟨p.shutting, by rw [close_open hopen], ?_⟩
      refine List.filterMap_eq_nil_iff.mpr fun event hmem => ?_
      rcases shutting_events hmem with rfl | ⟨client, rfl | rfl⟩ <;> rfl

/-- A pool that goes on: its log has grown, and its shared producer is the same. -/
structure Extends (p q : Pool) : Prop where
  log : p.log <+: q.log
  shared : q.shared = p.shared
  isClosed : q.isClosed = p.isClosed
  hasBroker : q.hasBroker = p.hasBroker
  kept : Kept p → Kept q

theorem Extends.refl (p : Pool) : Extends p p := ⟨List.prefix_refl _, rfl, rfl, rfl, id⟩

theorem Extends.trans (h : Extends p q) (k : Extends q r) : Extends p r :=
  ⟨h.log.trans k.log, k.shared.trans h.shared, k.isClosed.trans h.isClosed,
    k.hasBroker.trans h.hasBroker, k.kept ∘ h.kept⟩

theorem extends_log (p : Pool) {events : List ClientEvent}
    (h : ∀ event ∈ events, event.role? = none ∧ event.ofLoop = false) :
    Extends p { p with log := p.log ++ events } := by
  refine ⟨List.prefix_append _ _, rfl, rfl, rfl, fun hkept => ⟨?_, ?_⟩⟩
  · have hroles : events.filterMap ClientEvent.role? = [] :=
      List.filterMap_eq_nil_iff.mpr fun event hmem => (h event hmem).1
    have hnumbers : events.filterMap ClientEvent.number? = [] :=
      List.filterMap_eq_nil_iff.mpr fun event hmem => ClientEvent.number?_eq_none (h event hmem).1
    rw [← roles_length, roles, List.filterMap_append, hroles, List.append_nil, ← roles,
      roles_length, ← hkept.numbers, Pool.numbers, List.filterMap_append, hnumbers, List.append_nil,
      Pool.numbers]
  · have hloop : events.filter ClientEvent.ofLoop = [] :=
      List.filter_eq_nil_iff.mpr fun event hmem => by simp [(h event hmem).2]
    rw [loopEvents, List.filter_append, hloop, List.append_nil]
    exact hkept.loop

theorem extends_note (p : Pool) {event : ClientEvent} (hrole : event.role? = none)
    (hloop : event.ofLoop = false) : Extends p (p.note event) :=
  p.extends_log fun other hmem => by rw [List.mem_singleton.mp hmem]; exact ⟨hrole, hloop⟩

theorem extends_used (p : Pool) (client calls : Nat) :
    Extends p { p with log := p.log ++ List.replicate calls (.used client) } :=
  p.extends_log fun other hmem => by rw [(List.mem_replicate.mp hmem).2]; exact ⟨rfl, rfl⟩

theorem extends_dispose (p : Pool) (client : Nat) : Extends p (p.dispose client) :=
  (p.extends_note rfl rfl).trans (extends_note _ rfl rfl)

theorem Asked.extends (h : Asked p call answer q) (hclose : call ≠ .close)
    (hshared : ∀ config failure, call ≠ .sharedProducer config failure) : Extends p q := by
  obtain ⟨more, hlog, -⟩ := h.log
  have hholds : q.shared = p.shared ∧ q.isClosed = p.isClosed ∧ q.hasBroker = p.hasBroker := by
    obtain ⟨hclosed, -, hkept, -, hbroker⟩ := p.readied_holds call
    cases h with
    | held _ => exact ⟨rfl, rfl, rfl⟩
    | refused _ _ _ => exact ⟨rfl, rfl, rfl⟩
    | failed _ _ _ => exact ⟨hkept, hclosed, hbroker⟩
    | opened _ _ _ =>
      cases call with
      | sharedProducer config failure => exact absurd rfl (hshared config failure)
      | _ => exact ⟨hkept, hclosed, hbroker⟩
    | cleared => exact ⟨rfl, rfl, rfl⟩
    | closed => exact absurd rfl hclose
  exact ⟨⟨more, hlog.symm⟩, hholds.1, hholds.2.1, hholds.2.2, fun hkept => hkept.asked h⟩

theorem Kept.role_unique (h : Kept p) {role other : ClientRole}
    (hrole : .opened client role ∈ p.log) (hother : .opened client other ∈ p.log) :
    role = other := by
  have hnodup : p.numbers.Nodup := h.numbers ▸ List.nodup_range
  have hpairwise := List.pairwise_filterMap.mp hnodup
  have hsymm : Std.Symm fun event event' : ClientEvent => ∀ n, event.number? = some n →
      ∀ m, event'.number? = some m → n ≠ m := ⟨fun _ _ hapart n hn m hm => (hapart m hm n hn).symm⟩
  by_contra hne
  exact hpairwise.forall hrole hother (fun hsame => hne (by cases hsame; rfl)) client rfl client rfl
    rfl

end Pool

/-! What steps that send nothing do to a pool. -/

namespace World

open Pool

theorem send_extends (w : World) (step : HttpStep) (request : Request) :
    Extends w.pool (w.send step request).2.pool := by
  have hasked : Extends w.pool (w.withPool (w.pool.httpClient request.certificate
      (w.certificateFault request.certificate))).2.pool :=
    (w.pool.asked_httpClient _ _).extends (by simp) (by simp)
  unfold send
  split
  · rename_i h
    rwa [h] at hasked
  · rename_i client w₁ h
    rw [h] at hasked
    have hused : Extends w₁.pool (w₁.note (.used client)).pool := extends_note _ rfl rfl
    rw [transmit]
    split
    · exact hasked.trans hused
    · exact hasked.trans hused

theorem runHttp_extends (w : World) (settings : Settings) (step : HttpStep) :
    Extends w.pool (w.runHttp settings step).2.pool := by
  simp only [runHttp]
  split
  · exact .refl _
  · split
    · exact .refl _
    · rename_i request tokens _
      exact send_extends { w with tokens := tokens } step request

theorem consumer_extends (w : World) (settings : Settings) (servers : Option String)
    (auth : Option BrokerAuthConfig) (group : Option String) (reset : OffsetReset) :
    Extends w.pool (w.consumer settings servers auth group reset).2.pool := by
  unfold consumer
  split
  · exact .refl _
  · exact (w.pool.asked (.createConsumer _ none)).extends (by simp) (by simp)

theorem poll_extends (w : World) (client : Nat) (consumer : Consumer) (topic : String) :
    Extends w.pool (w.poll client consumer topic).2.pool := extends_note _ rfl rfl

theorem drain_extends (w : World) (client : Nat) (consumer : Consumer) (topic : String)
    (count : Nat) : Extends w.pool (w.drain client consumer topic count).2.2.pool := by
  induction count generalizing w with
  | zero => exact .refl _
  | succ count ih =>
    have hpolled := w.poll_extends client consumer topic
    rw [drain]
    rcases hpoll : w.poll client consumer topic with ⟨outcome, w₁⟩
    rw [hpoll] at hpolled
    cases outcome with
    | received message => exact hpolled.trans (ih w₁)
    | nothing => exact hpolled
    | hung => exact hpolled
    | raised why => exact hpolled

theorem runConsume_extends (w : World) (settings : Settings) (step : ConsumeStep) :
    Extends w.pool (w.runConsume settings step).2.pool := by
  have hopened := w.consumer_extends settings step.bootstrapServers step.auth step.groupId
    step.autoOffsetReset
  unfold runConsume
  split
  · rename_i h
    rwa [h] at hopened
  · rename_i client consumer w₁ h
    rw [h] at hopened
    exact hopened.trans ((w₁.poll_extends client consumer step.topic).trans
      (extends_note _ rfl rfl))

theorem runBatchConsume_extends (w : World) (settings : Settings) (step : BatchConsumeStep) :
    Extends w.pool (w.runBatchConsume settings step).2.pool := by
  have hopened := w.consumer_extends settings step.bootstrapServers step.auth step.groupId
    step.autoOffsetReset
  unfold runBatchConsume
  split
  · rename_i h
    rwa [h] at hopened
  · rename_i client consumer w₁ h
    rw [h] at hopened
    exact hopened.trans ((w₁.drain_extends client consumer step.topic _).trans
      (extends_note _ rfl rfl))

theorem run_extends (w : World) (settings : Settings) {step : Step} (h : step.sending? = none) :
    Extends w.pool (w.run settings step).2.pool := by
  cases step with
  | http step => exact w.runHttp_extends settings step
  | consume step => exact w.runConsume_extends settings step
  | batchConsume step => exact w.runBatchConsume_extends settings step
  | produce step => cases h
  | batchProduce step => cases h

end World

end Rehearsal
