import Rehearsal.Proofs.Execution.Layers

/-! What authentication changes in a request. A strategy that fetches no token sets headers of its
own names, or one parameter, or the certificate. What it sets is there once afterwards and all else
is as it was, in its order; so a strategy that is applied once more changes nothing. -/

namespace Rehearsal

namespace HttpStrategy

def parameter? : HttpStrategy → Option (String × Value)
  | .apiKey name value .query => some (name.display, value)
  | _ => none

def certificate? : HttpStrategy → Option ClientCertificate
  | .certificate cert => some cert
  | _ => none

variable (strategy : HttpStrategy) (token : Value) (request : Request)

theorem applyTo_eq : strategy.applyTo token request =
    { request with
      headers := request.headers.setAll (strategy.written token)
      params := strategy.parameters request.params
      certificate := strategy.certificate?.or request.certificate } := by
  cases strategy with
  | apiKey name value location => cases location <;> rfl
  | _ => rfl

theorem parameters_eq (params : List (String × Value)) : strategy.parameters params =
    params.filter (fun param => strategy.parameter?.all (·.1 != param.1)) ++
      strategy.parameter?.toList := by
  cases strategy with
  | apiKey name value location =>
    cases location with
    | query => simp [parameters, parameter?, bne_comm]
    | header => simp [parameters, parameter?]
  | _ => simp [parameters, parameter?]

theorem parameters_again (params : List (String × Value)) :
    strategy.parameters (strategy.parameters params) = strategy.parameters params := by
  rw [parameters_eq, parameters_eq, List.filter_append, List.filter_filter]
  cases strategy.parameter? <;> simp

theorem applyTo_again :
    strategy.applyTo token (strategy.applyTo token request) = strategy.applyTo token request := by
  rw [applyTo_eq, applyTo_eq]
  simp only [Headers.setAll_again, parameters_again, ← Option.or_assoc, Option.or_self]

variable {strategy}

theorem headers_kept : (strategy.applyTo .null request).headers.filter
      (fun header => !strategy.sets header.1) =
    request.headers.filter fun header => !strategy.sets header.1 := by
  rw [applyTo_headers]
  refine Headers.filter_setAll _ _ fun header ⟨other, hother, hname⟩ => ?_
  have hset : strategy.sets header.1 = true :=
    List.any_eq_true.mpr ⟨other, hother, (Text.sameIgnoringCase_comm _ _).trans hname⟩
  rw [hset, Bool.not_true]

theorem headers_set {name : String} {header : String × Value}
    (h : (strategy.written .null).last? name = some header) :
    (strategy.applyTo .null request).headers.under name = [header] := by
  rw [applyTo_headers, Headers.under_setAll, h]
  rfl

theorem params_kept : (strategy.applyTo token request).params.filter
      (fun param => strategy.parameter?.all (·.1 != param.1)) =
    request.params.filter fun param => strategy.parameter?.all (·.1 != param.1) := by
  rw [applyTo_params, parameters_eq, List.filter_append, List.filter_filter]
  cases strategy.parameter? <;> simp

theorem params_set {param : String × Value} (h : strategy.parameter? = some param) :
    (strategy.applyTo token request).params.filter (·.1 == param.1) = [param] := by
  rw [applyTo_params, parameters_eq, List.filter_append, List.filter_filter, h]
  have hnone : request.params.filter
      (fun other => other.1 == param.1 && (some param).all (·.1 != other.1)) = [] := by
    refine List.filter_eq_nil_iff.mpr fun other _ => ?_
    cases hname : other.1 == param.1 with
    | false => simp
    | true => simp [eq_of_beq hname]
  rw [hnone]
  simp

theorem certificate?_eq_none (h : ∀ cert, strategy ≠ .certificate cert) :
    strategy.certificate? = none := by
  cases strategy with
  | certificate cert => exact absurd rfl (h cert)
  | _ => rfl

/-- A strategy that fetches no token changes its own part of a request only, and that once. Its
headers, in whatever spellings they were there, its parameter or its certificate are set; headers
and parameters of other names keep their values and their order, and all else is as it was. Applied
again, to the request that it made, it makes the same one. -/
theorem changes_own_part {config : Option HttpAuthConfig} (hresolve : resolve config = .ok strategy)
    (hfetch : ∀ auth, resolve config ≠ .ok (.oauth2 auth)) (request : Request) :
    ∃ applied,
      (∀ service, strategy.authorize request service = (.ok applied, service) ∧
        strategy.authorize applied service = (.ok applied, service)) ∧
      (applied.method = request.method ∧ applied.url = request.url ∧
        applied.body = request.body ∧ applied.timeout = request.timeout) ∧
      (applied.headers.filter (fun header => !strategy.sets header.1) =
          request.headers.filter fun header => !strategy.sets header.1) ∧
      (∀ name header, (strategy.written .null).last? name = some header →
        applied.headers.under name = [header]) ∧
      (applied.params.filter (fun param => strategy.parameter?.all (·.1 != param.1)) =
          request.params.filter fun param => strategy.parameter?.all (·.1 != param.1)) ∧
      (∀ param, strategy.parameter? = some param →
        applied.params.filter (·.1 == param.1) = [param]) ∧
      ((∀ cert, strategy ≠ .certificate cert) → applied.certificate = request.certificate) ∧
      ∀ cert, strategy = .certificate cert → applied.certificate = some cert := by
  have hown : strategy.FetchesNothing := fun auth hauth => hfetch auth (hauth ▸ hresolve)
  refine ⟨strategy.applyTo .null request, fun service => ⟨hown.authorize _ service, ?_⟩,
    strategy.applyTo_rest .null request, headers_kept request, fun _ _ => headers_set request,
    params_kept .null request, fun _ => params_set .null request, fun hother => ?_, ?_⟩
  · rw [hown.authorize, applyTo_again]
  · rw [applyTo_eq, certificate?_eq_none hother, Option.none_or]
  · rintro cert rfl
    rfl

/-- Custom headers, of which one is listed in two spellings, on a request with a third. -/
theorem changes_own_part_respelt :
    let config : HttpAuthConfig := .ofCustomHeaders
      ⟨[("X-Tenant", .text "a"), ("X-Role", .text "b"), ("x-tenant", .text "c")]⟩
    let request : Request := { (default : Request) with
      headers := [("X-TENANT", .text "old"), ("Accept", .text "*/*"), ("x-role", .text "old")] }
    ∃ strategy, resolve (some config) = .ok strategy ∧
      (∀ auth, resolve (some config) ≠ .ok (.oauth2 auth)) ∧
      ∃ applied, (∀ service, strategy.authorize request service = (.ok applied, service) ∧
          strategy.authorize applied service = (.ok applied, service)) ∧
        applied.headers.filter (fun header => !strategy.sets header.1) =
          [("Accept", .text "*/*")] ∧
        applied.headers.under "X-Tenant" = [("x-tenant", .text "c")] ∧
        applied.certificate = request.certificate := by
  intro config request
  have hresolve : resolve (some config) = .ok (.customHeaders
      [("X-Tenant", .text "a"), ("X-Role", .text "b"), ("x-tenant", .text "c")]) := by rfl
  have hfetch : ∀ auth, resolve (some config) ≠ .ok (.oauth2 auth) := by
    intro auth hauth
    cases hresolve.symm.trans hauth
  obtain ⟨applied, htwice, -, hkept, hset, -, -, hcertificate, -⟩ :=
    changes_own_part hresolve hfetch request
  exact ⟨_, hresolve, hfetch, applied, htwice, hkept.trans rfl, hset "X-Tenant" _ rfl,
    hcertificate (by simp)⟩

end HttpStrategy

end Rehearsal
