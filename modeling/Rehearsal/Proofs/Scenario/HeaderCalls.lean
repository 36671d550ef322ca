import Rehearsal.Proofs.Execution.Layers
import Rehearsal.Proofs.Http.Merging
import Rehearsal.Proofs.Scenario.Construction

/-! Calls that give the request of a scenario headers, and the headers that are sent. Each call
succeeds; what the calls gave is merged by exact spelling, and the request then has one header of
each name, which carries what was given last under the newest spelling of the name. -/

namespace Rehearsal

def Headers.entries (headers : Headers) : List (Value × Value) :=
  headers.map fun header => (.text header.1, header.2)

theorem Headers.entries_append (headers more : Headers) :
    entries (headers ++ more) = entries headers ++ entries more :=
  List.map_append

/-- A call that gives a request a header, or several. -/
inductive HeaderCall where
  | one (name : String) (value : Value)
  | several (pairs : List (String × Value))

namespace HeaderCall

def construction : HeaderCall → Construction
  | .one name value => .header name value
  | .several pairs => .headers (Headers.entries pairs)

/-- The headers that a call gives: their values become texts. -/
def given : HeaderCall → Headers
  | .one name value => [(name, .text value.display)]
  | .several pairs => pairs.map fun header => (header.1, .text header.2.display)

end HeaderCall

/-- Whether a step holds what its checks have left: an address, a timeout above zero, and headers of
which each spelling is there once. -/
structure HttpStep.Sound (step : HttpStep) : Prop where
  url : step.url ≠ ""
  timeout : Draft.seconds "HttpStep" (.float step.timeout) = .ok step.timeout
  headers : (step.headers.map (·.1)).Nodup

namespace HttpStep

variable {step : HttpStep}

/-- A step with more headers, as a scenario changes it. -/
def withHeaders (step : HttpStep) (more : Headers) : HttpStep :=
  { step with
    method := Text.upper step.method
    headers := Headers.merged (step.headers ++ more) }

theorem Sound.withHeaders (h : step.Sound) (more : Headers) : (step.withHeaders more).Sound :=
  ⟨h.url, h.timeout, Headers.nodup_merged _⟩

end HttpStep

theorem StepChange.named_entries (headers : Headers) :
    named headers.entries = Headers.merged headers := by
  rw [named, Headers.entries, List.foldl_map]
  rfl

theorem Step.evolve_http {step made : HttpStep} {change : StepChange}
    (hname : change.name ∈ Variant.http.fieldNames)
    (hbuild : HttpDraft.build (StepChange.toHttp step.draft change) = .ok made) :
    (Step.http step).evolve [change] = .ok (.http made) := by
  have hknown : refuseUnknown (Step.http step).variant.name (Step.http step).variant.fieldNames
      [change.name] = .ok () := refuseUnknown_known (List.forall_mem_singleton.mpr hname)
  simp only [evolve, List.map_cons, List.map_nil, hknown]
  exact map_eq_ok.mpr ⟨_, hbuild, rfl⟩

theorem Step.evolve_headers {step : HttpStep} (h : step.Sound) (more : Headers) :
    (Step.http step).evolve [.headers (Headers.entries (step.headers ++ more))] =
      .ok (.http (step.withHeaders more)) := by
  refine evolve_http (by simp [StepChange.name, Variant.fieldNames]) ?_
  have hgiven : (!(Value.text step.url).truthy) = false := by
    simpa [Value.truthy] using h.url
  simp only [StepChange.toHttp, StepChange.named_entries, HttpDraft.build, HttpStep.draft, hgiven,
    h.timeout, ok_bind]
  rfl

namespace Engine

variable {e : Engine} {step : HttpStep}

/-- The scenario after several calls that describe a step, if all of them succeed. -/
def constructAll (e : Engine) (calls : List Construction) : Except Fault Engine :=
  calls.foldlM construct e

theorem construct_headerCall (hb : e.stage = .building) (hc : e.current = some (.http step))
    (h : step.Sound) (call : HeaderCall) :
    e.construct call.construction = .ok (e.setStep (.http (step.withHeaders call.given))) := by
  have hrequire : ∀ operation, e.require operation (.http :: Variant.produceSteps) =
      .ok (.http step) := require_of hb hc List.mem_cons_self
  have hevolve : ∀ operation, e.evolve operation (.http :: Variant.produceSteps)
      [.headers (step.headers.entries ++ call.given.entries)] =
        .ok (e.setStep (.http (step.withHeaders call.given))) := by
    intro operation
    rw [← Headers.entries_append, Engine.evolve, hrequire, ok_bind, Step.evolve_headers h]
    rfl
  cases call with
  | one name value => exact bind_eq_ok.mpr ⟨_, hrequire _, hevolve _⟩
  | several pairs =>
    refine bind_eq_ok.mpr ⟨_, hrequire _, ?_⟩
    have hgiven := hevolve "with_headers"
    simp only [HeaderCall.given, Headers.entries, List.map_map, Function.comp_def] at hgiven
    simp only [Step.variant, if_true, Headers.entries, List.map_map, Function.comp_def]
    exact hgiven

theorem constructAll_headerCalls (hb : e.stage = .building) (hc : e.current = some (.http step))
    (h : step.Sound) (calls : List HeaderCall) :
    ∃ made : HttpStep,
      e.constructAll (calls.map (·.construction)) = .ok (e.setStep (.http made)) ∧
      made.headers = Headers.merged (step.headers ++ calls.flatMap (·.given)) ∧
      made.url = step.url ∧ made.body = step.body ∧ made.queryParams = step.queryParams ∧
      made.timeout = step.timeout ∧ made.auth = step.auth := by
  induction calls generalizing e step with
  | nil =>
    have hsame : Headers.merged step.headers = step.headers :=
      Keyed.putAll_new (by simpa using h.headers)
    refine ⟨step, ?_, by simp [hsame], rfl, rfl, rfl, rfl, rfl⟩
    rw [setStep, ← hc]
    rfl
  | cons call rest ih =>
    obtain ⟨made, hmade, hheaders, hurl, hbody, hparams, htimeout, hauth⟩ :=
      ih (e := e.setStep (.http (step.withHeaders call.given))) hb rfl (h.withHeaders call.given)
    refine ⟨made, ?_, ?_, hurl, hbody, hparams, htimeout, hauth⟩
    · rw [List.map_cons, constructAll, List.foldlM_cons, construct_headerCall hb hc h, ok_bind]
      exact hmade
    · rw [hheaders, List.flatMap_cons, ← List.append_assoc]
      exact Headers.merged_append (step.headers ++ call.given) _

theorem execute_world (hb : e.stage = .building) (hc : e.current = some (.http step)) (w : World) :
    (e.execute World.runner w).2.2 = (w.runHttp e.settings step).2 := by
  simp only [execute, hb, hc]
  rfl

/-- Calls that give the request of a scenario headers, in whatever spellings. All of them succeed.
The request that is sent, if nothing fails before, has for each name that they give, and that
authentication does not write, one header; it has the newest spelling of the name and carries what
was given last under that very spelling. If what was given last for the name has the newest
spelling, it is what is sent. -/
theorem headerCalls_sent (hb : e.stage = .building) (hc : e.current = some (.http step))
    (h : step.Sound) (calls : List HeaderCall) :
    let all := step.headers ++ calls.flatMap (·.given)
    ∃ made : HttpStep,
      e.constructAll (calls.map (·.construction)) = .ok (e.setStep (.http made)) ∧
      made.url = step.url ∧ made.body = step.body ∧ made.queryParams = step.queryParams ∧
      made.timeout = step.timeout ∧ made.auth = step.auth ∧
      ∀ w : World,
        ((e.setStep (.http made)).execute World.runner w).2.2.web.received =
          w.web.received ++ (w.request? e.settings made).toList ∧
        ∀ request strategy name last,
          w.request? e.settings made = some request →
          HttpStrategy.resolve (given step.auth e.settings.http.auth) = .ok strategy →
          strategy.sets name = false →
          Headers.last? (calls.flatMap (·.given)) name = some last →
          ∃ sent, request.headers.under name = [sent] ∧
            Headers.Newest all name sent.1 ∧
            Keyed.get? all.reverse sent.1 = some sent.2 ∧
            (Headers.Newest all name last.1 → sent = last) := by
  intro all
  obtain ⟨made, hmade, hheaders, hurl, hbody, hparams, htimeout, hauth⟩ :=
    constructAll_headerCalls hb hc h calls
  refine ⟨made, hmade, hurl, hbody, hparams, htimeout, hauth, fun w => ⟨?_, ?_⟩⟩
  · have hran := execute_world (e := e.setStep (.http made)) hb rfl w
    rw [hran]
    exact w.runHttp_received e.settings made
  intro request strategy name last hrequest hresolve hsets hlast
  rw [← hauth] at hresolve
  have hall : Headers.last? all name = some last := by
    rw [Headers.last?_append, hlast]
    rfl
  obtain ⟨spelling, hnewest⟩ := Headers.exists_newest (by rw [hall]; rfl)
  obtain ⟨value, hvalue, hmerged⟩ := hnewest.last?_merged
  refine ⟨(spelling, value), ?_, hnewest, hvalue, fun hlastNewest => ?_⟩
  · exact w.request?_under e.settings made hrequest hresolve hsets (hheaders ▸ hmerged)
  · obtain ⟨value', hvalue', hmerged'⟩ := hlastNewest.last?_merged
    rw [Headers.get?_of_last? hall] at hvalue'
    cases hvalue'
    exact Option.some.inj (hmerged.symm.trans hmerged')

/-- A name given in one spelling and then in another one. -/
theorem headerCalls_sent_respelt :
    let step : HttpStep :=
      { url := "http://host/a", method := "GET", body := .null, headers := [], queryParams := []
        timeout := Binary64.ofNat 30, auth := none }
    let e : Engine := { settings := {}, current := some (.http step) }
    let w := World.calm (.empty 1 .persisted 0)
    let calls : List HeaderCall := [.one "X-Trace" (.int 1), .several [("x-trace", .int 2)]]
    ∃ made request, e.constructAll (calls.map (·.construction)) = .ok (e.setStep (.http made)) ∧
      ((e.setStep (.http made)).execute World.runner w).2.2.web.received = [request] ∧
      request.headers.under "X-TRACE" = [("x-trace", .text "2")] := by
  intro step e w calls
  have hc : e.current = some (.http step) := rfl
  obtain ⟨made, hmade, -, hbody, -, -, hauth, hsent⟩ :=
    headerCalls_sent rfl hc ⟨by decide, rfl, List.nodup_nil⟩ calls
  have hcontent : made.content = .ok (.null, false) := by rw [HttpStep.content, hbody]
  have hresolve : HttpStrategy.resolve (given made.auth e.settings.http.auth) = .ok .noAuth := by
    rw [hauth]
    rfl
  obtain ⟨request, hrequest⟩ := w.request?_of e.settings made hcontent hresolve nofun
    (by intro certificate; cases certificate <;> exact ⟨_, rfl⟩)
  obtain ⟨hreceived, hrule⟩ := hsent w
  rw [hrequest] at hreceived
  obtain ⟨sent, hunder, -, -, hlast⟩ :=
    hrule request .noAuth "X-TRACE" ("x-trace", .text "2") hrequest rfl rfl rfl
  obtain rfl := hlast ⟨rfl, [("X-Trace", .text "1")], _, [], rfl, by decide, nofun⟩
  exact ⟨made, request, hmade, hreceived, hunder⟩

/-- A name given in an old spelling again: what was given in between under a newer one is sent. -/
theorem headerCalls_sent_stale :
    let step : HttpStep :=
      { url := "http://host/a", method := "GET", body := .null, headers := [], queryParams := []
        timeout := Binary64.ofNat 30, auth := none }
    let e : Engine := { settings := {}, current := some (.http step) }
    let w := World.calm (.empty 1 .persisted 0)
    let calls : List HeaderCall :=
      [.one "X-Trace" (.int 1), .one "x-trace" (.int 2), .one "X-Trace" (.int 3)]
    ∃ made request, e.constructAll (calls.map (·.construction)) = .ok (e.setStep (.http made)) ∧
      ((e.setStep (.http made)).execute World.runner w).2.2.web.received = [request] ∧
      Headers.last? (calls.flatMap (·.given)) "x-trace" = some ("X-Trace", .text "3") ∧
      request.headers.under "x-trace" = [("x-trace", .text "2")] := by
  intro step e w calls
  have hc : e.current = some (.http step) := rfl
  obtain ⟨made, hmade, hheaders, -, hbody, -, -, hauth⟩ :=
    constructAll_headerCalls rfl hc ⟨by decide, rfl, List.nodup_nil⟩ calls
  have hcontent : made.content = .ok (.null, false) := by rw [HttpStep.content, hbody]
  have hresolve : HttpStrategy.resolve (given made.auth e.settings.http.auth) = .ok .noAuth := by
    rw [hauth]
    rfl
  obtain ⟨request, hrequest⟩ := w.request?_of e.settings made hcontent hresolve nofun
    (by intro certificate; cases certificate <;> exact ⟨_, rfl⟩)
  have hreceived : ((e.setStep (.http made)).execute World.runner w).2.2.web.received =
      [request] := by
    have hran := execute_world (e := e.setStep (.http made)) rfl rfl w
    have hsent := w.runHttp_received e.settings made
    rw [hrequest] at hsent
    rw [hran]
    exact hsent
  exact ⟨made, request, hmade, hreceived, rfl,
    w.request?_under e.settings made hrequest hresolve rfl (hheaders ▸ rfl)⟩

end Engine

end Rehearsal
