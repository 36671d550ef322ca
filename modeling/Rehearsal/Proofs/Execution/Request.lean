import Rehearsal.Proofs.Execution.Result
import Rehearsal.Proofs.Execution.Run

/-! What comes of a request. A step gets its request to an endpoint unless something fails before,
and a response arrives or does not; the result of a step that returns tells which. -/

namespace Rehearsal

namespace World

def responseTo? (w : World) (request : Request) : Option Response :=
  request.address.toOption.bind fun _ =>
    match (w.web.ask request).1 with
    | .response r => some r
    | _ => none

/-- The response that arrives for a step: for the request that it makes and authenticates, if there
is a client to send it with. -/
def response? (w : World) (settings : Settings) (step : HttpStep) : Option Response := do
  let plain ← (step.request settings.http).toOption
  let strategy ← (HttpStrategy.resolve (given step.auth settings.http.auth)).toOption
  let request ← (strategy.authorize plain w.tokens).1.toOption
  let certificate := request.certificate
  let _ ← (w.pool.httpClient certificate (w.certificateFault certificate)).1.toOption
  w.responseTo? request

end World

namespace HttpStep

variable (step : HttpStep) (now : Instant)

theorem captured_cases (fault : Fault) :
    step.captured now fault = .ok (step.failed now fault) ∨
      step.captured now fault = .error fault := by
  unfold captured
  split
  · exact .inl rfl
  · exact .inr rfl

theorem answered_cases (address : String) (answer : Answer) :
    (∃ r, answer = .response r ∧ step.answered now address answer = step.received now address r) ∨
      (∀ r, answer ≠ .response r) ∧
        ∃ fault, step.answered now address answer = step.failed now fault := by
  cases answer with
  | response r => exact .inl ⟨r, rfl, rfl⟩
  | timedOut why => exact .inr ⟨nofun, _, rfl⟩
  | failed why => exact .inr ⟨nofun, _, rfl⟩
  | unfinished => exact .inr ⟨nofun, _, rfl⟩

end HttpStep

namespace World

/-- What may come of a step, by the response that arrives. -/
def Ends (w : World) (step : HttpStep) (arrived : Option Response)
    (outcome : Except Fault StepResult) : Prop :=
  (∃ fault, outcome = .error fault) ∨
  (arrived = none ∧ ∃ fault, outcome = .ok (step.failed w.now fault)) ∨
  ∃ r address, arrived = some r ∧ outcome = .ok (step.received w.now address r)

theorem ends_captured (w : World) (step : HttpStep) (fault : Fault) :
    w.Ends step none (step.captured w.now fault) := by
  rcases step.captured_cases w.now fault with h | h
  · exact .inr (.inl ⟨rfl, fault, h⟩)
  · exact .inl ⟨fault, h⟩

theorem transmit_cases (w : World) (step : HttpStep) (request : Request) :
    let after := w.transmit step request
    w.Kept after.2 ∧ after.2.cluster = w.cluster ∧
      w.Ends step (w.responseTo? request) after.1 := by
  unfold transmit responseTo?
  cases request.address with
  | error fault => exact ⟨⟨rfl, rfl, rfl⟩, rfl, w.ends_captured step fault⟩
  | ok address =>
    refine ⟨⟨rfl, rfl, rfl⟩, rfl, ?_⟩
    rcases step.answered_cases w.now address (w.web.ask request).1 with
      ⟨r, hr, h⟩ | ⟨hnone, fault, h⟩
    · exact .inr (.inr ⟨r, address, by simp [Except.toOption, hr], congrArg Except.ok h⟩)
    · refine .inr (.inl ⟨?_, fault, congrArg Except.ok h⟩)
      cases hanswer : (w.web.ask request).1 with
      | response r => exact absurd hanswer (hnone r)
      | _ => rfl

theorem send_cases (w : World) (step : HttpStep) (request : Request) :
    let after := w.send step request
    let client := (w.pool.httpClient request.certificate
      (w.certificateFault request.certificate)).1
    w.Kept after.2 ∧ after.2.cluster = w.cluster ∧
      w.Ends step (client.toOption.bind fun _ => w.responseTo? request) after.1 := by
  have hkept := w.withPool_kept (w.pool.httpClient_kept request.certificate
    (w.certificateFault request.certificate))
  unfold send
  rcases hclient : w.pool.httpClient request.certificate (w.certificateFault request.certificate)
    with ⟨fault | client, pool⟩
  · rw [hclient] at hkept
    exact ⟨hkept, rfl, w.ends_captured step fault⟩
  · rw [hclient] at hkept
    obtain ⟨hrest, hcluster, hends⟩ :=
      (({ w with pool := pool }).note (.used client)).transmit_cases step request
    exact ⟨hkept.trans ⟨hrest.now, hrest.isClosed, hrest.hasBroker⟩, hcluster, hends⟩

theorem runHttp_cases (w : World) (settings : Settings) (step : HttpStep) :
    let after := w.runHttp settings step
    w.Kept after.2 ∧ after.2.cluster = w.cluster ∧
      w.Ends step (w.response? settings step) after.1 := by
  unfold runHttp response?
  cases step.request settings.http with
  | error fault => exact ⟨.refl w, rfl, .inl ⟨fault, rfl⟩⟩
  | ok plain =>
    cases HttpStrategy.resolve (given step.auth settings.http.auth) with
    | error fault => exact ⟨.refl w, rfl, .inl ⟨fault, rfl⟩⟩
    | ok strategy =>
      simp only [ok_bind, Except.toOption, Option.bind_eq_bind, Option.bind_some, pure, Except.pure]
      rcases strategy.authorize plain w.tokens with ⟨fault | request, tokens⟩
      · exact ⟨⟨rfl, rfl, rfl⟩, rfl, w.ends_captured step fault⟩
      · obtain ⟨hkept, hcluster, hends⟩ := ({ w with tokens := tokens }).send_cases step request
        exact ⟨⟨hkept.now, hkept.isClosed, hkept.hasBroker⟩, hcluster, hends⟩

/-! A response that arrives. -/

variable {w : World} {settings : Settings} {step : HttpStep} {r : Response} {request : Request}

theorem transmit_response (h : w.responseTo? request = some r) (step : HttpStep) :
    ∃ address, (w.transmit step request).1 = .ok (step.received w.now address r) := by
  obtain ⟨address, haddress, hanswer⟩ := Option.bind_eq_some_iff.mp h
  refine ⟨address, ?_⟩
  split at hanswer
  · rename_i arrived hasked
    cases hanswer
    simp only [transmit, toOption_eq_some.mp haddress, hasked]
    rfl
  · cases hanswer

theorem send_response {client : Nat} (h : w.responseTo? request = some r) (step : HttpStep)
    (hclient : (w.pool.httpClient request.certificate
      (w.certificateFault request.certificate)).1 = .ok client) :
    ∃ address, (w.send step request).1 = .ok (step.received w.now address r) := by
  unfold send
  rcases hopened : w.pool.httpClient request.certificate (w.certificateFault request.certificate)
    with ⟨outcome, pool⟩
  rw [hopened] at hclient
  obtain rfl : outcome = .ok client := hclient
  exact transmit_response (w := ({ w with pool := pool }).note (.used client)) h step

theorem runHttp_response (h : w.response? settings step = some r) :
    ∃ address, (w.runHttp settings step).1 = .ok (step.received w.now address r) := by
  simp only [response?, Option.bind_eq_bind, Option.bind_eq_some_iff, toOption_eq_some] at h
  obtain ⟨plain, hplain, strategy, hstrategy, request, hrequest, client, hclient, h⟩ := h
  unfold runHttp
  simp only [hplain, hstrategy, ok_bind, pure, Except.pure]
  rcases hauthorized : strategy.authorize plain w.tokens with ⟨outcome, tokens⟩
  rw [hauthorized] at hrequest
  obtain rfl : outcome = .ok request := hrequest
  exact send_response (w := { w with tokens := tokens }) h step hclient

end World

/-! The laws of the results. -/

namespace HttpStep

variable (step : HttpStep) (now : Instant)

theorem failed_lawful (fault : Fault) : (step.failed now fault).Lawful := by
  have h : (StepResult.failure now .http fault .null step.facts).Coherent :=
    StepResult.failure_coherent now (by decide) fault .null step.facts
  exact StepResult.lawful_single ⟨h.errors, h.status, h.error, h.delivery, h.batch⟩ rfl

theorem received_lawful (address : String) (r : Response) :
    (step.received now address r).Lawful := by
  have herrors : r.isSuccess = true ↔ (step.received now address r).errors = [] := by
    cases h : r.isSuccess <;> simp [received, h]
  exact StepResult.lawful_single ⟨herrors, StepResult.ofRun_status now r.isSuccess,
    fun h => absurd rfl h, nofun, by simp [received, StepKind.batches]⟩ rfl

end HttpStep

theorem Response.isSuccess_iff (r : Response) :
    r.isSuccess = true ↔ 200 ≤ r.status ∧ r.status < 300 := by simp [isSuccess]

end Rehearsal
