import Rehearsal.Execution.Http
import Rehearsal.Proofs.Execution.Laws
import Rehearsal.Proofs.Http.Headers

/-! The layers of the headers of a request. What authentication writes comes before the headers of
the step, these before the content type of a JSON body, and that before the default headers; each
layer counts for the names that none before it has, and no name is sent twice. A key that is sent as
a parameter replaces the parameters of its name. -/

namespace Rehearsal

namespace HttpStrategy

/-- The headers that a strategy writes, in the order in which it does. -/
def written (strategy : HttpStrategy) (token : Value) : Headers :=
  match strategy with
  | .noAuth | .certificate _ | .apiKey _ _ .query => []
  | .basic username password =>
    [("Authorization", .text (basicHeader username.display password.display))]
  | .bearer token scheme =>
    [("Authorization", .text (bearerHeader scheme.display token.display))]
  | .apiKey name value .header => [(name.display, value)]
  | .customHeaders headers => headers
  | .oauth2 _ => [("Authorization", .text (bearerHeader "Bearer" token.display))]

/-- Parameters with the one that a strategy writes. -/
def parameters (strategy : HttpStrategy) (params : List (String × Value)) :
    List (String × Value) :=
  match strategy with
  | .apiKey name value .query =>
    params.filter (fun param => param.1 != name.display) ++ [(name.display, value)]
  | _ => params

/-- A strategy that authorises a request by itself, without fetching a token. -/
def FetchesNothing (strategy : HttpStrategy) : Prop := ∀ auth, strategy ≠ .oauth2 auth

variable (strategy : HttpStrategy) (token : Value) (request : Request)

theorem applyTo_headers :
    (strategy.applyTo token request).headers = request.headers.setAll (strategy.written token) := by
  cases strategy with
  | apiKey name value location => cases location <;> rfl
  | _ => rfl

theorem applyTo_params :
    (strategy.applyTo token request).params = strategy.parameters request.params := by
  cases strategy with
  | apiKey name value location => cases location <;> rfl
  | _ => rfl

theorem applyTo_rest :
    let applied := strategy.applyTo token request
    applied.method = request.method ∧ applied.url = request.url ∧ applied.body = request.body ∧
      applied.timeout = request.timeout := by
  cases strategy with
  | apiKey name value location => cases location <;> exact ⟨rfl, rfl, rfl, rfl⟩
  | _ => exact ⟨rfl, rfl, rfl, rfl⟩

variable {strategy}

theorem FetchesNothing.authorize (h : strategy.FetchesNothing) (service : TokenService) :
    strategy.authorize request service = (.ok (strategy.applyTo .null request), service) := by
  cases strategy with
  | oauth2 auth => exact absurd rfl (h auth)
  | _ => rfl

variable {request} in
theorem authorize_ok {service : TokenService} {authorized : Request}
    (h : (strategy.authorize request service).1 = .ok authorized) :
    ∃ token, authorized = strategy.applyTo token request := by
  cases strategy with
  | oauth2 auth =>
    simp only [authorize] at h
    split at h <;> cases h
    exact ⟨_, rfl⟩
  | _ =>
    cases h
    exact ⟨_, rfl⟩

/-- Whether a strategy writes a header of a name; which token it has makes no difference. -/
def sets (strategy : HttpStrategy) (name : String) : Bool :=
  (strategy.written .null).any fun header => Text.sameIgnoringCase header.1 name

theorem last?_written {name : String} (h : strategy.sets name = false) (token : Value) :
    (strategy.written token).last? name = none := by
  have hnames : (strategy.written token).map (·.1) = (strategy.written .null).map (·.1) := by
    cases strategy with
    | apiKey name value location => cases location <;> rfl
    | _ => rfl
  refine List.find?_eq_none.mpr fun header hheader => ?_
  have hthere := List.mem_map_of_mem (f := (·.1)) (List.mem_reverse.mp hheader)
  rw [hnames] at hthere
  obtain ⟨other, hother, hsame⟩ := List.mem_map.mp hthere
  have hno := List.any_eq_false.mp h other hother
  rwa [hsame] at hno

end HttpStrategy

/-- The default headers as those of a request. -/
def HttpSettings.defaults (settings : HttpSettings) : Headers :=
  settings.defaultHeaders.map fun (name, text) => (name, .text text)

namespace HttpStep

variable {step : HttpStep}

/-- What tells of a JSON body, as which everything is sent but text, bytes and nothing. -/
def contentType (step : HttpStep) : Headers :=
  match step.body with
  | .null | .bytes _ | .text _ | .status _ => []
  | _ => [("Content-Type", .text "application/json")]

theorem contentType_eq {body : Value} {isJson : Bool} (h : step.content = .ok (body, isJson)) :
    step.contentType = if isJson then [("Content-Type", .text "application/json")] else [] := by
  unfold content at h
  unfold contentType
  cases hbody : step.body with
  | null | bytes | text | status =>
    simp only [hbody] at h
    cases h
    rfl
  | _ =>
    simp only [hbody] at h
    split at h
    · cases h
      rfl
    · cases h

/-- A request before authentication: the headers of the step over the content type, and that over
the default headers. -/
def sendable (step : HttpStep) (settings : HttpSettings) (body : Value) : Request :=
  { method := step.method, url := step.url, params := step.queryParams, body := body
    headers := (settings.defaults.setAll step.contentType).setAll step.headers
    timeout := step.timeout, certificate := none }

/-- A step whose body can be sent makes the request with its layers. -/
theorem request_layers (settings : HttpSettings) {body : Value} {isJson : Bool}
    (h : step.content = .ok (body, isJson)) :
    step.request settings = .ok (step.sendable settings body) := by
  unfold sendable
  rw [contentType_eq h]
  simp only [request, h, ok_bind]
  cases isJson <;> rfl

end HttpStep

namespace World

/-- The request that is handed to the transport for a step, if nothing fails before. -/
def request? (w : World) (settings : Settings) (step : HttpStep) : Option Request := do
  let plain ← (step.request settings.http).toOption
  let strategy ← (HttpStrategy.resolve (given step.auth settings.http.auth)).toOption
  let request ← (strategy.authorize plain w.tokens).1.toOption
  let certificate := request.certificate
  let _ ← (w.pool.httpClient certificate (w.certificateFault certificate)).1.toOption
  return request

variable (w : World) (settings : Settings) (step : HttpStep) {strategy : HttpStrategy}

theorem transmit_received (request : Request) :
    (w.transmit step request).2.web.received = w.web.received ++ [request] := by
  unfold transmit
  cases request.address with
  | error fault => rfl
  | ok address =>
    simp only [Endpoint.ask]
    split <;> rfl

theorem send_received (request : Request) :
    let client := (w.pool.httpClient request.certificate
      (w.certificateFault request.certificate)).1
    (w.send step request).2.web.received =
      w.web.received ++ (client.toOption.bind fun _ => some request).toList := by
  unfold send
  rcases w.pool.httpClient request.certificate (w.certificateFault request.certificate)
    with ⟨fault | client, pool⟩
  · exact (List.append_nil _).symm
  · exact transmit_received _ step request

theorem runHttp_received :
    (w.runHttp settings step).2.web.received =
      w.web.received ++ (w.request? settings step).toList := by
  unfold runHttp request?
  cases step.request settings.http with
  | error fault => exact (List.append_nil _).symm
  | ok plain =>
    cases HttpStrategy.resolve (given step.auth settings.http.auth) with
    | error fault => exact (List.append_nil _).symm
    | ok strategy =>
      simp only [ok_bind, Except.toOption, Option.bind_eq_bind, Option.bind_some, pure, Except.pure]
      rcases strategy.authorize plain w.tokens with ⟨fault | request, tokens⟩
      · exact (List.append_nil _).symm
      · exact send_received { w with tokens := tokens } step request

/-- The request of a step: what authentication makes of the layers of the step. -/
theorem request?_eq {request : Request} (h : w.request? settings step = some request)
    (hresolve : HttpStrategy.resolve (given step.auth settings.http.auth) = .ok strategy) :
    ∃ body isJson token, step.content = .ok (body, isJson) ∧
      request = strategy.applyTo token (step.sendable settings.http body) := by
  simp only [request?, Option.bind_eq_bind, Option.bind_eq_some_iff, toOption_eq_some] at h
  obtain ⟨plain, hplain, found, hfound, made, hmade, client, -, hrequest⟩ := h
  obtain rfl : strategy = found := Except.ok.inj (hresolve.symm.trans hfound)
  obtain rfl : made = request := Option.some.inj hrequest
  obtain ⟨⟨body, isJson⟩, hcontent, -⟩ := bind_eq_ok.mp hplain
  obtain ⟨token, rfl⟩ := HttpStrategy.authorize_ok hmade
  rw [HttpStep.request_layers settings.http hcontent] at hplain
  cases hplain
  exact ⟨body, isJson, token, hcontent, rfl⟩

theorem request?_under {request : Request} (h : w.request? settings step = some request)
    (hresolve : HttpStrategy.resolve (given step.auth settings.http.auth) = .ok strategy)
    {name : String} (hsets : strategy.sets name = false) {header : String × Value}
    (hheader : Headers.last? step.headers name = some header) :
    request.headers.under name = [header] := by
  obtain ⟨body, isJson, token, -, rfl⟩ := w.request?_eq settings step h hresolve
  rw [HttpStrategy.applyTo_headers, Headers.under_setAll, HttpStrategy.last?_written hsets,
    Option.elim_none, HttpStep.sendable, Headers.under_setAll, hheader]
  rfl

theorem request?_of {body : Value} {isJson : Bool} (hcontent : step.content = .ok (body, isJson))
    (hresolve : HttpStrategy.resolve (given step.auth settings.http.auth) = .ok strategy)
    (hfetches : strategy.FetchesNothing)
    (hclient : ∀ certificate, ∃ client,
      (w.pool.httpClient certificate (w.certificateFault certificate)).1 = .ok client) :
    ∃ request, w.request? settings step = some request := by
  simp only [request?, Option.bind_eq_bind, Option.bind_eq_some_iff, toOption_eq_some]
  obtain ⟨client, hopen⟩ :=
    hclient (strategy.applyTo .null (HttpStep.sendable step settings.http body)).certificate
  exact ⟨_, _, HttpStep.request_layers settings.http hcontent, strategy, hresolve, _,
    by rw [hfetches.authorize], client, hopen, rfl⟩

/-- What is sent for a step: nothing if its body cannot be, else one request, whose headers are the
layers' and whose parameters are those of the step with the one that authentication writes. -/
theorem runHttp_layers (hdefaults : settings.http.defaults.Distinct)
    (hresolve : HttpStrategy.resolve (given step.auth settings.http.auth) = .ok strategy)
    (hfetches : strategy.FetchesNothing) :
    match step.content with
    | .error fault => w.runHttp settings step = (.error fault, w)
    | .ok (body, _) =>
      ∃ plain, step.request settings.http = .ok plain ∧
        let request := strategy.applyTo .null plain
        w.runHttp settings step = w.send step request ∧
        request.body = body ∧
        request.headers.Distinct ∧
        (∀ name header,
          header ∈ request.headers ∧ Text.sameIgnoringCase header.1 name = true ↔
            Headers.firstOf [strategy.written .null, step.headers, step.contentType,
              settings.http.defaults] name = some header) ∧
        request.params = strategy.parameters step.queryParams := by
  cases hcontent : step.content with
  | error fault => simp only [runHttp, HttpStep.request, hcontent, error_bind]
  | ok content =>
    obtain ⟨body, isJson⟩ := content
    have hplain := HttpStep.request_layers settings.http hcontent
    refine ⟨_, hplain, ?_, (strategy.applyTo_rest _ _).2.2.1, ?_⟩
    · simp only [runHttp, hplain, hresolve, ok_bind, pure, Except.pure, hfetches.authorize]
    rw [strategy.applyTo_headers, strategy.applyTo_params, HttpStep.sendable]
    have hdistinct := ((hdefaults.setAll step.contentType).setAll step.headers).setAll
      (strategy.written .null)
    refine ⟨hdistinct, fun name header => ?_, rfl⟩
    rw [hdistinct.mem_iff]
    simp only [Headers.last?_setAll, Headers.firstOf_cons, Headers.firstOf_nil, Option.or_none]

/-- A key in a header that the step has in another spelling, over a default content type. -/
theorem runHttp_layers_overlap :
    let key : ApiKeyAuth :=
      { name := .text "X-KEY", value := .text "secret", location := .text "header" }
    let settings : Settings := { http :=
      { defaultHeaders := [("content-type", "text/plain")]
        auth := some { type := .apiKey, apiKey := some key } } }
    let step : HttpStep :=
      { url := "http://host/a", method := "POST", body := .int 1, queryParams := []
        headers := [("x-key", .text "own"), ("Accept", .text "text/html")]
        timeout := Binary64.ofNat 30, auth := none }
    let w := calm (.empty 1 .persisted 0)
    ∃ request, w.runHttp settings step = w.send step request ∧ request.headers.Distinct ∧
      ("X-KEY", .text "secret") ∈ request.headers ∧
      ("Accept", .text "text/html") ∈ request.headers ∧
      ("Content-Type", .text "application/json") ∈ request.headers := by
  intro key settings step w
  have hresolve : HttpStrategy.resolve (some { type := .apiKey, apiKey := some key }) =
      .ok (.apiKey (.text "X-KEY") (.text "secret") .header) := by
    simp only [key]
    rfl
  obtain ⟨plain, -, hsend, -, hdistinct, hlayers, -⟩ :=
    w.runHttp_layers settings step (by decide +kernel) hresolve nofun
  exact ⟨_, hsend, hdistinct, ((hlayers "x-key" _).mpr rfl).1, ((hlayers "accept" _).mpr rfl).1,
    ((hlayers "content-type" _).mpr rfl).1⟩

end World

end Rehearsal
