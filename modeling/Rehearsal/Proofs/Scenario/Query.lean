import Rehearsal.Proofs.Scenario.HeaderCalls
import Rehearsal.Proofs.Scenario.Resource
import Rehearsal.Proofs.Url.Query

/-! The parameters that a request is sent with. They are those that the calls and the key of a
scenario give: the query of an address is always replaced, also by none, so what is written in the
resource itself is not sent. -/

namespace Rehearsal

namespace Request

/-- Parameters with their values as texts. -/
def texts (params : List (String × Value)) : List (String × String) :=
  params.map fun param => (param.1, OAuth2Auth.formValue param.2)

def target (request : Request) : Except Fault Url.Target := do
  let invalid (outcome : Except Url.TargetFlaw Url.Target) : Except Fault Url.Target :=
    outcome.mapError fun flaw => .raised .invalidUrl flaw.message
  let target ← invalid (Url.Target.ofText request.url)
  request.headers.checkSendable
  let params := texts request.params
  invalid (target.withQuery (if params.isEmpty then none else some (Url.formPairs params)))

variable {request : Request} {target : Url.Target}

theorem address_eq (request : Request) : request.address = request.target.map Url.Target.text := by
  simp only [address, Request.target]
  cases Url.Target.ofText request.url with
  | error flaw => rfl
  | ok given =>
    cases request.headers.checkSendable with
    | error fault => rfl
    | ok checked =>
      simp only [ok_bind, Except.mapError]
      have htexts : (request.params.map fun param => (param.1, OAuth2Auth.formValue param.2)) =
          texts request.params := rfl
      rw [htexts]
      generalize given.withQuery _ = outcome
      cases outcome <;> rfl

theorem parameters_target (h : request.target = .ok target) :
    target.parameters = texts request.params := by
  obtain ⟨given, -, h⟩ := bind_eq_ok.mp h
  obtain ⟨_, -, h⟩ := bind_eq_ok.mp h
  exact Url.Target.parameters_withQuery (mapError_eq_ok.mp h)

end Request

/-- A call that gives a request parameters: one of its own, or a key that may be sent as one. -/
inductive ParameterCall where
  | param (name : String) (value : Value)
  | key (value name : Value) (location : KeyLocation)

namespace ParameterCall

def construction : ParameterCall → Construction
  | .param name value => .queryParam name value
  | .key value name location => .apiKey value name (.text location.text)

/-- The parameter that a call gives the step; a key is added when the request is authorised. -/
def given : ParameterCall → Headers
  | .param name value => [(name, .text value.display)]
  | .key _ _ _ => []

/-- The authentication that a call selects. -/
def auth? : ParameterCall → Option HttpAuthConfig
  | .param _ _ => none
  | .key value name location => some (.ofApiKey value name location)

/-- Whether a call is accepted: a key has to be one that a request can be authorised with. -/
def Accepted (call : ParameterCall) : Prop :=
  ∀ config, call.auth? = some config → ∃ strategy, HttpStrategy.resolve (some config) = .ok strategy

end ParameterCall

theorem KeyLocation.ofValue_text (location : KeyLocation) :
    ofValue (.text location.text) = .ok location := by
  cases location <;> rfl

namespace HttpStep

variable {step : HttpStep} {url : String} {timeout : Binary64}

/-- The step that a resource and calls that give parameters or a key come to. -/
def ofResource (url : String) (timeout : Binary64) (calls : List ParameterCall) : HttpStep :=
  { url := url, method := "GET", body := .null, headers := []
    queryParams := Headers.merged (calls.flatMap (·.given)), timeout := timeout
    auth := (calls.filterMap (·.auth?)).getLast? }

theorem Sound.evolve (h : step.Sound) {change : StepChange} {made : HttpStep}
    (hname : change.name ∈ Variant.http.fieldNames)
    (hmade : StepChange.toHttp step.draft change = made.draft) (hurl : made.url = step.url)
    (htimeout : made.timeout = step.timeout) :
    (Step.http step).evolve [change] =
      .ok (.http { made with method := Text.upper made.method }) := by
  refine Step.evolve_http hname ?_
  have htruthy : (!(Value.text made.url).truthy) = false := by
    simpa [Value.truthy, hurl] using h.url
  have hseconds := h.timeout
  rw [← htimeout] at hseconds
  rw [hmade]
  simp only [HttpDraft.build, draft, htruthy, hseconds, ok_bind]
  rfl

theorem upper_get : Text.upper "GET" = "GET" := by decide +kernel

end HttpStep

namespace Engine

variable {e started : Engine} {path url : String} {timeout : Binary64}

theorem apiResource_begins (h : e.construct (.apiResource path) = .ok started) :
    ∃ url, e.resourceUrl path = .ok url ∧ e.stage = .building ∧
      started = e.setStep (.http (.ofResource url e.settings.http.timeout [])) ∧
      (HttpStep.ofResource url e.settings.http.timeout []).Sound := by
  obtain ⟨_, hb, h⟩ := bind_eq_ok.mp h
  by_cases hp : path = ""
  · rw [if_pos hp] at h
    cases h
  rw [if_neg hp] at h
  obtain ⟨url, hurl, h⟩ := bind_eq_ok.mp h
  obtain ⟨_, hstep, rfl⟩ := map_eq_ok.mp h
  obtain ⟨made, hmade, rfl⟩ := map_eq_ok.mp hstep
  rw [HttpDraft.build] at hmade
  split_ifs at hmade with htruthy
  obtain ⟨timeout, hseconds, hmade⟩ := bind_eq_ok.mp hmade
  cases hmade
  have htimeout := Draft.seconds_float hseconds
  subst htimeout
  rw [HttpStep.upper_get]
  refine ⟨url, hurl, checkBuilding_ok hb, rfl, ?_, hseconds, List.nodup_nil⟩
  simpa [Value.truthy, HttpStep.ofResource] using htruthy

theorem construct_parameterCall {calls : List ParameterCall} (hb : e.stage = .building)
    (hc : e.current = some (.http (.ofResource url timeout calls)))
    (h : (HttpStep.ofResource url timeout calls).Sound) {call : ParameterCall}
    (hcall : call.Accepted) :
    e.construct call.construction =
      .ok (e.setStep (.http (.ofResource url timeout (calls ++ [call])))) := by
  have hrequire : ∀ operation, e.require operation [.http] =
      .ok (.http (.ofResource url timeout calls)) := require_of hb hc List.mem_cons_self
  -- a call goes through if its change makes the draft that the longer list of calls has
  have hevolve : ∀ operation change, change.name ∈ Variant.http.fieldNames →
      StepChange.toHttp (HttpStep.ofResource url timeout calls).draft change =
        (HttpStep.ofResource url timeout (calls ++ [call])).draft →
      e.evolve operation [.http] [change] =
        .ok (e.setStep (.http (.ofResource url timeout (calls ++ [call])))) := by
    intro operation change hname hmade
    have hchanged := h.evolve hname hmade rfl rfl
    refine bind_eq_ok.mpr ⟨_, hrequire _, bind_eq_ok.mpr ⟨_, hchanged, ?_⟩⟩
    simp only [HttpStep.ofResource, HttpStep.upper_get]
    rfl
  cases call with
  | param name value =>
    refine bind_eq_ok.mpr ⟨_, hrequire _, hevolve _ _ ?_ ?_⟩
    · simp [StepChange.name, Variant.fieldNames]
    have hparams := StepChange.named_entries
      (Headers.merged (calls.flatMap (·.given)) ++ [(name, .text value.display)])
    rw [Headers.merged_append, Headers.entries_append] at hparams
    have hmade : (HttpStep.ofResource url timeout (calls ++ [.param name value])).queryParams =
        Headers.merged (calls.flatMap (·.given) ++ [(name, .text value.display)]) := by
      rw [HttpStep.ofResource, List.flatMap_append, List.flatMap_singleton]
      rfl
    have hauth : (HttpStep.ofResource url timeout (calls ++ [.param name value])).auth =
        (HttpStep.ofResource url timeout calls).auth := by
      rw [HttpStep.ofResource, List.filterMap_append]
      exact congrArg List.getLast? (List.append_nil _)
    rw [StepChange.toHttp, HttpStep.draft, HttpStep.draft, hmade, hauth, ← hparams]
    rfl
  | key value name location =>
    obtain ⟨strategy, hstrategy⟩ := hcall _ rfl
    refine bind_eq_ok.mpr ⟨_, KeyLocation.ofValue_text location, ?_⟩
    refine bind_eq_ok.mpr ⟨_, hrequire _, bind_eq_ok.mpr ⟨_, hstrategy, hevolve _ _ ?_ ?_⟩⟩
    · simp [StepChange.name, Variant.fieldNames]
    · simp [StepChange.toHttp, HttpStep.draft, HttpStep.ofResource, ParameterCall.given,
        ParameterCall.auth?]

theorem constructAll_parameterCalls (before calls : List ParameterCall)
    (hb : e.stage = .building) (hc : e.current = some (.http (.ofResource url timeout before)))
    (h : (HttpStep.ofResource url timeout []).Sound) (hcalls : ∀ call ∈ calls, call.Accepted) :
    e.constructAll (calls.map (·.construction)) =
      .ok (e.setStep (.http (.ofResource url timeout (before ++ calls)))) := by
  induction calls generalizing e before with
  | nil =>
    rw [List.append_nil, setStep, ← hc]
    rfl
  | cons call rest ih =>
    obtain ⟨hcall, hrest⟩ := List.forall_mem_cons.mp hcalls
    have hstep := construct_parameterCall hb hc ⟨h.url, h.timeout, List.nodup_nil⟩ hcall
    have hmore := ih (e := e.setStep (.http (.ofResource url timeout (before ++ [call]))))
      (before ++ [call]) hb rfl hrest
    rw [List.append_assoc, List.singleton_append] at hmore
    rw [List.map_cons, constructAll, List.foldlM_cons, hstep, ok_bind]
    exact hmore

theorem execute_received (hb : e.stage = .building) (step : HttpStep) (w : World) :
    ((e.setStep (.http step)).execute World.runner w).2.2.web.received =
      w.web.received ++ (w.request? e.settings step).toList := by
  rw [execute_world (e := e.setStep (.http step)) hb rfl w]
  exact w.runHttp_received e.settings step

/-- The request of a resource, after calls that give parameters or a key. All accepted calls
succeed. The request that is sent, if nothing fails before, goes to the address of the resource and
carries the parameters of the calls, each name once with what was given for it last, and after them
a key that is sent as one. So the parameters in the query of the resource that neither replaces are
lost: the request carries them before the others just if there are none. -/
theorem resource_query_replaced (h : e.construct (.apiResource path) = .ok started)
    (calls : List ParameterCall) (hcalls : ∀ call ∈ calls, call.Accepted) :
    ∃ url, e.resourceUrl path = .ok url ∧
      let made := HttpStep.ofResource url e.settings.http.timeout calls
      started.constructAll (calls.map (·.construction)) =
        .ok (started.setStep (.http made)) ∧
      ∀ w : World,
        ((started.setStep (.http made)).execute World.runner w).2.2.web.received =
          w.web.received ++ (w.request? e.settings made).toList ∧
        ∀ request strategy target,
          w.request? e.settings made = some request →
          HttpStrategy.resolve (given made.auth e.settings.http.auth) = .ok strategy →
          request.target = .ok target →
          let own := Request.texts (strategy.parameters made.queryParams)
          let lost := (Url.readPairs (Url.queryOf path.toList)).filter fun param =>
            !(own.map (·.1)).contains param.1
          request.url = url ∧ request.address = .ok target.text ∧
            target.parameters = own ∧ (target.parameters = lost ++ own ↔ lost = []) := by
  obtain ⟨url, hresource, hb, rfl, hsound⟩ := apiResource_begins h
  let begun := e.setStep (.http (.ofResource url e.settings.http.timeout []))
  have hall := constructAll_parameterCalls (e := begun) [] calls hb rfl hsound hcalls
  refine ⟨url, hresource, hall, fun w => ⟨execute_received (e := begun) hb _ w, ?_⟩⟩
  intro request strategy target hrequest hresolve htarget own lost
  obtain ⟨body, isJson, token, -, rfl⟩ := w.request?_eq e.settings _ hrequest hresolve
  have hcarried : target.parameters = own := by
    rw [Request.parameters_target htarget, HttpStrategy.applyTo_params]
    rfl
  refine ⟨(strategy.applyTo_rest token _).2.1, ?_, hcarried, ?_⟩
  · rw [Request.address_eq, htarget]
    rfl
  · rw [hcarried]
    exact List.self_eq_append_left

/-- A resource with two parameters, of which a call gives one again, and a key beside them. -/
theorem resource_query_replaced_key :
    let e : Engine := { settings := { http := { baseUrl := "http://api.test/v1" } } }
    let calls : List ParameterCall :=
      [.param "page" (.int 2), .key (.text "k") (.text "api_key") .query]
    let w := World.calm (.empty 1 .persisted 0)
    ∃ (started : Engine) (made : HttpStep) (request : Request) (target : Url.Target),
      e.construct (.apiResource "/items?page=1&size=9") = .ok started ∧
      started.constructAll (calls.map (·.construction)) = .ok (started.setStep (.http made)) ∧
      ((started.setStep (.http made)).execute World.runner w).2.2.web.received = [request] ∧
      request.address = .ok target.text ∧
      target.parameters = [("page", "2"), ("api_key", "k")] := by
  intro e calls w
  obtain ⟨started, hstarted⟩ : ∃ started,
      e.construct (.apiResource "/items?page=1&size=9") = .ok started :=
    exists_constructed (by decide +kernel)
  let key : HttpStrategy := .apiKey (.text "api_key") (.text "k") .query
  have hcalls : ∀ call ∈ calls, call.Accepted := by
    intro call hcall config hconfig
    simp only [calls, List.mem_cons, List.not_mem_nil, or_false] at hcall
    obtain rfl | rfl := hcall <;> cases hconfig
    exact ⟨key, rfl⟩
  obtain ⟨url, hurl, hmade, hsent⟩ := resource_query_replaced hstarted calls hcalls
  have hplace : (e.resourceUrl "/items?page=1&size=9").toOption =
      some "http://api.test/v1/items?page=1&size=9" := by decide +kernel
  rw [hurl] at hplace
  obtain rfl := Option.some.inj hplace
  let made :=
    HttpStep.ofResource "http://api.test/v1/items?page=1&size=9" e.settings.http.timeout calls
  have hresolve : HttpStrategy.resolve (given made.auth e.settings.http.auth) = .ok key := rfl
  obtain ⟨hreceived, hrule⟩ := hsent w
  obtain ⟨request, hrequest⟩ := w.request?_of e.settings made rfl hresolve nofun
    (by intro certificate; cases certificate <;> exact ⟨_, rfl⟩)
  obtain ⟨body, isJson, token, hcontent, rfl⟩ := w.request?_eq e.settings made hrequest hresolve
  cases hcontent
  obtain ⟨target, htarget⟩ :
      ∃ target, (key.applyTo .null (made.sendable e.settings.http .null)).target = .ok target :=
    exists_eq_ok (by decide +kernel)
  obtain ⟨-, haddress, hcarried, -⟩ := hrule _ key target hrequest hresolve htarget
  rw [hrequest] at hreceived
  exact ⟨started, made, _, target, hstarted, hmade, hreceived, haddress, hcarried⟩

/-- A resource without any call: its own parameter is not sent. -/
theorem resource_query_lost :
    let e : Engine := { settings := {} }
    let w := World.calm (.empty 1 .persisted 0)
    ∃ (started : Engine) (request : Request) (target : Url.Target),
      e.construct (.apiResource "http://host.test/a?x=1") = .ok started ∧
      (started.execute World.runner w).2.2.web.received = [request] ∧
      request.address = .ok target.text ∧ target.text = "http://host.test/a" ∧
      target.parameters = [] ∧
      Url.readPairs (Url.queryOf "http://host.test/a?x=1".toList) = [("x", "1")] := by
  intro e w
  obtain ⟨started, hstarted⟩ : ∃ started,
      e.construct (.apiResource "http://host.test/a?x=1") = .ok started :=
    exists_constructed (by decide +kernel)
  obtain ⟨url, hurl, hb, rfl, -⟩ := apiResource_begins hstarted
  have hplace : (e.resourceUrl "http://host.test/a?x=1").toOption =
      some "http://host.test/a?x=1" := by decide +kernel
  rw [hurl] at hplace
  obtain rfl := Option.some.inj hplace
  let made := HttpStep.ofResource "http://host.test/a?x=1" e.settings.http.timeout []
  have hresolve : HttpStrategy.resolve (given made.auth e.settings.http.auth) = .ok .noAuth := rfl
  obtain ⟨request, hrequest⟩ := w.request?_of e.settings made rfl hresolve nofun
    (by intro certificate; cases certificate <;> exact ⟨_, rfl⟩)
  obtain ⟨body, isJson, token, hcontent, rfl⟩ := w.request?_eq e.settings made hrequest hresolve
  cases hcontent
  have hreceived := execute_received hb made w
  rw [hrequest] at hreceived
  obtain ⟨target, htarget⟩ : ∃ target, (made.sendable e.settings.http .null).target = .ok target :=
    exists_eq_ok (by decide +kernel)
  have haddress : (made.sendable e.settings.http .null).address.toOption =
      some "http://host.test/a" := by decide +kernel
  rw [Request.address_eq, htarget] at haddress
  refine ⟨_, _, target, hstarted, hreceived, ?_, Option.some.inj haddress, ?_, by decide +kernel⟩
  · exact (Request.address_eq _).trans (congrArg _ htarget)
  · exact (Request.parameters_target htarget).trans rfl

end Engine

end Rehearsal
