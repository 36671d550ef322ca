import Rehearsal.Proofs.Http.Headers
import Rehearsal.Proofs.Scenario.HeaderCalls
import Rehearsal.Proofs.Step.Valid

/-! Calls that add a custom header to the authentication of a request. What they gather is set on a
request as the custom headers that were there and then those of the calls, one after another. -/

namespace Rehearsal

namespace Request

def setHeaders (request : Request) (headers : Headers) : Request :=
  headers.foldl (fun request header => request.setHeader header.1 header.2) request

theorem setHeaders_eq (request : Request) (headers : Headers) :
    request.setHeaders headers = { request with headers := request.headers.setAll headers } := by
  induction headers generalizing request with
  | nil => rfl
  | cons header rest ih => exact ih (request.setHeader header.1 header.2)

end Request

namespace HttpStrategy

variable {headers : Headers}

theorem required_text {name field auth : String} (h : Text.isBlankText name = false) :
    required (.text name) field auth = .ok (.text name) := by
  simp [required, Value.display, h]

theorem checkNames_iff :
    checkNames headers = .ok () ↔ ∀ header ∈ headers, Text.isBlankText header.1 = false := by
  induction headers with
  | nil => simp [checkNames]
  | cons header rest ih =>
    obtain ⟨name, value⟩ := header
    rw [List.forall_mem_cons, ← ih, checkNames]
    cases hname : Text.isBlankText name with
    | false => simp [required_text hname]
    | true => simp [required, Value.display, hname]

theorem ofCustomHeaders_iff {strategy : HttpStrategy} :
    ofCustomHeaders ⟨headers⟩ = .ok strategy ↔
      headers ≠ [] ∧ (∀ header ∈ headers, Text.isBlankText header.1 = false) ∧
        strategy = .customHeaders headers := by
  rw [ofCustomHeaders, ← checkNames_iff]
  cases headers with
  | nil => simp
  | cons header rest =>
    cases checkNames (header :: rest) <;> simp [Except.map, eq_comm]

end HttpStrategy

namespace HttpStep

/-- The custom headers that a step authenticates with. -/
def customHeaders (step : HttpStep) : Headers :=
  match step.auth with
  | some config =>
    match config.type, config.customHeader with
    | .customHeader, some custom => custom.headers
    | _, _ => []
  | none => []

/-- A step with these custom headers for its authentication, as a scenario changes it. -/
def withCustomHeaders (step : HttpStep) (headers : Headers) : HttpStep :=
  { step with
    method := Text.upper step.method
    auth := some (.ofCustomHeaders ⟨headers⟩) }

variable {step : HttpStep} {headers : Headers} {name : String}

theorem otherCustomHeaders_eq (step : HttpStep) (name : String) :
    Engine.otherCustomHeaders (.http step) name = step.customHeaders.others name := by
  rw [Engine.otherCustomHeaders, customHeaders]
  cases step.auth with
  | none => rfl
  | some config =>
    obtain ⟨type, _, _, _, custom, _, _⟩ := config
    cases type <;> cases custom <;> rfl

theorem resolve_customHeaders (hresolve : ∃ strategy, HttpStrategy.resolve step.auth = .ok strategy)
    (hauth : ∀ config, step.auth = some config → config.type = .customHeader) :
    ∃ strategy, HttpStrategy.resolve step.auth = .ok strategy ∧
      ∀ token request, strategy.applyTo token request = request.setHeaders step.customHeaders := by
  obtain ⟨strategy, hresolve⟩ := hresolve
  refine ⟨strategy, hresolve, fun token request => ?_⟩
  rw [Request.setHeaders_eq, customHeaders]
  cases hgiven : step.auth with
  | none =>
    rw [hgiven] at hresolve
    cases hresolve
    rfl
  | some config =>
    have htype := hauth config hgiven
    obtain ⟨type, _, _, _, custom, _, _⟩ := config
    obtain rfl : type = .customHeader := htype
    rw [hgiven] at hresolve
    cases custom with
    | none => cases hresolve
    | some custom =>
      obtain ⟨-, -, rfl⟩ := HttpStrategy.ofCustomHeaders_iff.mp hresolve
      rfl

theorem valid_withCustomHeaders (h : HttpStep.Valid { step with auth := none }) (hne : headers ≠ [])
    (hnamed : ∀ header ∈ headers, Text.isBlankText header.1 = false) :
    (step.withCustomHeaders headers).Valid where
  url := h.url
  timeout := h.timeout
  auth := ⟨.customHeaders headers, HttpStrategy.ofCustomHeaders_iff.mpr ⟨hne, hnamed, rfl⟩⟩

theorem evolve_customHeaders (h : HttpStep.Valid { step with auth := none }) (headers : Headers) :
    (Step.http step).evolve [.httpAuth (some (.ofCustomHeaders ⟨headers⟩))] =
      .ok (.http (step.withCustomHeaders headers)) := by
  refine Step.evolve_http (by simp [StepChange.name, Variant.fieldNames]) ?_
  have hgiven : (!(Value.text step.url).truthy) = false := by
    simpa [Value.truthy] using h.url
  have htimeout := (Draft.seconds_iff "HttpStep" step.timeout).mpr h.timeout
  simp only [StepChange.toHttp, HttpDraft.build, HttpStep.draft, hgiven, htimeout, ok_bind]
  rfl

end HttpStep

namespace Engine

variable {e : Engine} {step : HttpStep}

theorem construct_customHeader (hb : e.stage = .building) (hc : e.current = some (.http step))
    (h : HttpStep.Valid { step with auth := none })
    (hnamed : ∀ header ∈ step.customHeaders, Text.isBlankText header.1 = false) {name : String}
    (hname : Text.isBlankText name = false) (text : String) :
    let made := step.withCustomHeaders (step.customHeaders.set name (.text text))
    e.construct (.customHeader name (.text text)) = .ok (e.setStep (.http made)) ∧ made.Valid ∧
      ∀ header ∈ made.customHeaders, Text.isBlankText header.1 = false := by
  intro made
  have hnames : ∀ header ∈ made.customHeaders, Text.isBlankText header.1 = false := by
    intro header hheader
    rcases List.mem_append.mp hheader with hold | hnew
    · exact hnamed header (List.mem_filter.mp hold).1
    · rwa [List.mem_singleton.mp hnew]
  have hmade : made.Valid := HttpStep.valid_withCustomHeaders h (by simp [Headers.set]) hnames
  obtain ⟨strategy, hresolve⟩ := hmade.auth
  have hrequire : ∀ operation, e.require operation [.http] = .ok (.http step) :=
    require_of hb hc List.mem_cons_self
  refine ⟨bind_eq_ok.mpr ⟨_, hrequire _, ?_⟩, hmade, hnames⟩
  rw [HttpStep.otherCustomHeaders_eq, setHttpAuth, hrequire, ok_bind]
  refine bind_eq_ok.mpr ⟨strategy, hresolve, ?_⟩
  rw [evolve, hrequire, ok_bind]
  exact bind_eq_ok.mpr ⟨_, HttpStep.evolve_customHeaders h _, rfl⟩

theorem constructAll_customHeaders (hb : e.stage = .building) (hc : e.current = some (.http step))
    (h : HttpStep.Valid { step with auth := none })
    (hauth : ∀ config, step.auth = some config → config.type = .customHeader)
    (hnamed : ∀ header ∈ step.customHeaders, Text.isBlankText header.1 = false)
    {calls : List (String × String)} (hnames : ∀ call ∈ calls, Text.isBlankText call.1 = false)
    (hresolve : calls ≠ [] ∨ ∃ strategy, HttpStrategy.resolve step.auth = .ok strategy) :
    ∃ made : HttpStep,
      e.constructAll (calls.map fun call => .customHeader call.1 (.text call.2)) =
        .ok (e.setStep (.http made)) ∧
      (∃ strategy, HttpStrategy.resolve made.auth = .ok strategy) ∧
      (∀ config, made.auth = some config → config.type = .customHeader) ∧
      made.customHeaders =
        step.customHeaders.setAll (calls.map fun call => (call.1, .text call.2)) := by
  induction calls generalizing e step with
  | nil =>
    refine ⟨step, ?_, hresolve.resolve_left (absurd rfl), hauth, rfl⟩
    rw [setStep, ← hc]
    rfl
  | cons call rest ih =>
    obtain ⟨hname, hrest⟩ := List.forall_mem_cons.mp hnames
    obtain ⟨hcall, hvalid, hstay⟩ := construct_customHeader hb hc h hnamed hname call.2
    let next := step.withCustomHeaders (step.customHeaders.set call.1 (.text call.2))
    have hset : ∀ config, next.auth = some config → config.type = .customHeader := by
      rintro _ ⟨⟩
      rfl
    obtain ⟨made, hmade, hlast, hkept, hheaders⟩ :=
      ih (e := e.setStep (.http next)) hb rfl ⟨hvalid.url, hvalid.timeout, _, rfl⟩ hset hstay hrest
        (.inr hvalid.auth)
    refine ⟨made, ?_, hlast, hkept, hheaders⟩
    rw [List.map_cons, constructAll, List.foldlM_cons, hcall, ok_bind]
    exact hmade

/-- Calls that add custom headers to a request that authenticates by custom headers, or not at all.
If the headers there are have names, all calls succeed, and if there are calls, or what is there
resolves, then the authentication resolves to a strategy. It does to every request what setting the
custom headers there were, and then those of the calls, one after another does. -/
theorem customHeaders_accumulate (hb : e.stage = .building) (hc : e.current = some (.http step))
    (h : HttpStep.Valid { step with auth := none })
    (hauth : ∀ config, step.auth = some config → config.type = .customHeader)
    (hnamed : ∀ header ∈ step.customHeaders, Text.isBlankText header.1 = false)
    (calls : List (String × String)) (hnames : ∀ call ∈ calls, Text.isBlankText call.1 = false)
    (hresolve : calls ≠ [] ∨ ∃ strategy, HttpStrategy.resolve step.auth = .ok strategy) :
    let given : Headers := calls.map fun call => (call.1, .text call.2)
    ∃ (made : HttpStep) (strategy : HttpStrategy),
      e.constructAll (calls.map fun call => .customHeader call.1 (.text call.2)) =
        .ok (e.setStep (.http made)) ∧
      HttpStrategy.resolve made.auth = .ok strategy ∧
      ∀ (token : Value) (request : Request),
        strategy.applyTo token request = (step.customHeaders ++ given).foldl
          (fun (request : Request) header => request.setHeader header.1 header.2) request := by
  intro given
  obtain ⟨made, hmade, hresolved, hkept, hheaders⟩ :=
    constructAll_customHeaders hb hc h hauth hnamed hnames hresolve
  obtain ⟨strategy, hstrategy, happly⟩ := HttpStep.resolve_customHeaders hresolved hkept
  refine ⟨made, strategy, hmade, hstrategy, fun token request => ?_⟩
  rw [happly, Request.setHeaders_eq, hheaders, Headers.setAll_setAll, ← Headers.setAll_append,
    ← Request.setHeaders_eq, Request.setHeaders]

theorem customHeaders_accumulate_respelt :
    let step : HttpStep :=
      { url := "http://host/a", method := "GET", body := .null, headers := [], queryParams := []
        timeout := Binary64.ofNat 30
        auth := some (.ofCustomHeaders ⟨[("X-A", .text "1"), ("X-B", .text "2")]⟩) }
    let e : Engine := { settings := {}, current := some (.http step) }
    let request : Request :=
      ⟨"GET", "http://host/a", [("x-b", .text "0")], [], .null, Binary64.ofNat 30, none⟩
    ∃ made strategy,
      e.constructAll [.customHeader "x-a" (.text "3")] = .ok (e.setStep (.http made)) ∧
      HttpStrategy.resolve made.auth = .ok strategy ∧
      (strategy.applyTo .null request).headers = [("X-B", .text "2"), ("x-a", .text "3")] := by
  intro step e request
  have hvalid : HttpStep.Valid { step with auth := none } :=
    ⟨by decide, (Draft.seconds_iff "HttpStep" _).mp rfl, _, rfl⟩
  have hauth : ∀ config, step.auth = some config → config.type = .customHeader := by
    rintro _ ⟨⟩
    rfl
  obtain ⟨made, strategy, hmade, hresolve, happly⟩ :=
    customHeaders_accumulate (e := e) rfl rfl hvalid hauth (by decide) [("x-a", "3")] (by decide)
      (.inl (List.cons_ne_nil _ _))
  exact ⟨made, strategy, hmade, hresolve, by rw [happly]; rfl⟩

end Engine

end Rehearsal
