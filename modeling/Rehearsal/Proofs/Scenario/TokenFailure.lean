import Rehearsal.Proofs.Auth.Lifetime
import Rehearsal.Proofs.Codec.RoundTrip
import Rehearsal.Proofs.Scenario.Runs

/-! What the answer of a token endpoint comes to. Whatever the endpoint answers, a token is kept and
sent, or the answer is a failure of the transport: then the cache still finds what it found, nothing
is sent, and a step that waited for the token ends with a failed result. One kind of answer raises
instead, a lifetime that is an integer and too large for a double; so does a payload of which no
request can be made. -/

namespace Rehearsal

/-- The token that an answer carries, null if it carries none. -/
def Answer.access (answer : Answer) : Value :=
  (Value.fieldIn? "access_token" answer.fields).getD .null

/-- Whether an answer gives a token for a number of seconds that is too large for a double. -/
def Answer.Outlasts (answer : Answer) : Prop :=
  ∃ r n, answer = .response r ∧ r.status < 400 ∧ answer.access.truthy = true ∧
    answer.declared = .int n ∧ Binary64.tooLarge ≤ n.natAbs

/-- The fault of an integer for which there is no double. -/
def Fault.tooLarge : Fault := .raised .overflow "int too large to convert to float"

namespace OAuth2Auth

variable {url : String} {r : Response}

theorem readAnswer_response (hstatus : r.status < 400)
    (haccess : (Answer.response r).access.truthy = true) :
    let declared := (Answer.response r).declared
    let lifetime := if declared.truthy then declared else .int defaultLifetime
    readAnswer url (.response r) =
      match lifetime.toFloat with
      | .ok seconds => .ok ((Answer.response r).access, seconds)
      | .error fault =>
        if fault.kind.isA .wrongType || fault.kind.isA .badValue then
          .error (.transport (.tokenLifetime url lifetime.shown))
        else .error fault := by
  intro declared lifetime
  rw [readAnswer, if_neg (not_le_of_gt hstatus)]
  simp only [declared, lifetime, Answer.access, Answer.declared, Answer.fields] at haccess ⊢
  split at haccess
  · rename_i fields hread
    rw [hread]
    exact if_neg (by simp [haccess])
  · cases haccess

theorem readAnswer_of_outlasts {answer : Answer} (h : answer.Outlasts) :
    readAnswer url answer = .error .tooLarge := by
  obtain ⟨r, n, rfl, hstatus, haccess, hdeclared, hlarge⟩ := h
  have htruthy : (Value.int n).truthy = true := by
    have hn : n ≠ 0 := by
      rintro rfl
      exact absurd hlarge (by decide +kernel)
    simp [Value.truthy, hn]
  obtain ⟨hsmall, -⟩ | ⟨-, hfloat⟩ := Binary64.ofIntChecked_cases n
  · exact absurd hlarge (Nat.not_le_of_lt hsmall)
  · have hvalue : (Value.int n).toFloat = .error .tooLarge := hfloat
    rw [readAnswer_response hstatus haccess, hdeclared]
    simp only [htruthy, if_true, hvalue]
    rfl

/-- An answer gives a token, is a failure of the transport, or gives a token for too long. -/
theorem readAnswer_cases (url : String) (answer : Answer) :
    (∃ access lifetime, readAnswer url answer = .ok (access, lifetime)) ∨
      (∃ why, readAnswer url answer = .error (.transport why)) ∨ answer.Outlasts := by
  cases answer with
  | timedOut why => exact .inr (.inl ⟨_, rfl⟩)
  | failed why => exact .inr (.inl ⟨_, rfl⟩)
  | unfinished => exact .inr (.inl ⟨_, rfl⟩)
  | response r =>
    by_cases hstatus : 400 ≤ r.status
    · exact .inr (.inl ⟨_, by rw [readAnswer, if_pos hstatus]⟩)
    cases haccess : (Answer.response r).access.truthy with
    | true =>
      rw [readAnswer_response (lt_of_not_ge hstatus) haccess]
      split
      · exact .inl ⟨_, _, rfl⟩
      · rename_i fault hfloat
        rcases Value.toFloat_error hfloat with hkind | hkind | ⟨n, hlifetime, hlarge, -⟩
        · exact .inr (.inl ⟨_, if_pos (by rw [hkind]; rfl)⟩)
        · exact .inr (.inl ⟨_, if_pos (by rw [hkind]; rfl)⟩)
        · -- a lifetime that is too large for a double is a failure of neither kind that is told
          refine .inr (.inr ⟨r, n, rfl, lt_of_not_ge hstatus, haccess, ?_, hlarge⟩)
          split at hlifetime
          · exact hlifetime
          · cases hlifetime
            exact absurd hlarge (by decide +kernel)
    | false =>
      rw [readAnswer, if_neg hstatus]
      simp only [Answer.access, Answer.fields] at haccess
      split
      · exact .inr (.inl ⟨_, rfl⟩)
      · rename_i fields hread
        rw [hread] at haccess
        simp only [haccess]
        exact .inr (.inl ⟨_, rfl⟩)
      · exact .inr (.inl ⟨_, rfl⟩)

end OAuth2Auth

namespace TokenService

variable {service : TokenService} {auth : OAuth2Auth}

/-- No valid token is kept for a payload. -/
def Lacks (service : TokenService) (auth : OAuth2Auth) : Prop :=
  (service.cache.get service.clock auth.cacheKey).1 = none

/-- The service when a token has been looked for; one that has expired is kept no more. -/
def looked (service : TokenService) (auth : OAuth2Auth) : TokenService :=
  { service with cache := (service.cache.get service.clock auth.cacheKey).2 }

/-- The service when a token has been asked for. -/
def asking (service : TokenService) (auth : OAuth2Auth) (request : TokenRequest) : TokenService :=
  { service.looked auth with endpoint := (service.endpoint.ask request).2 }

theorem Lacks.lookup?_looked (h : service.Lacks auth) (key : String) :
    (service.looked auth).cache.lookup? key =
      if key = auth.cacheKey then none else service.cache.lookup? key := by
  rw [Lacks, TokenCache.get_eq] at h
  rw [looked, TokenCache.lookup?_get, h]

theorem looked_of_nothing (h : service.cache.lookup? auth.cacheKey = none) :
    service.looked auth = service := by
  rw [looked, TokenCache.get, h]

theorem Lacks.authorize_unasked (h : service.Lacks auth) {fault : Fault}
    (hrequest : auth.request = .error fault) (options : Request) :
    (HttpStrategy.oauth2 auth).authorize options service = (.error fault, service.looked auth) := by
  rcases hget : service.cache.get service.clock auth.cacheKey with ⟨found, cache⟩
  obtain rfl : found = none := by rwa [Lacks, hget] at h
  simp only [HttpStrategy.authorize, OAuth2Auth.token, looked, hget, hrequest]

theorem Lacks.authorize_asked (h : service.Lacks auth) {request : TokenRequest}
    (hrequest : auth.request = .ok request) (options : Request) :
    let asking := service.asking auth request
    (HttpStrategy.oauth2 auth).authorize options service =
      match OAuth2Auth.readAnswer auth.tokenUrl.display (service.endpoint.ask request).1 with
      | .error fault => (.error fault, asking)
      | .ok (access, lifetime) =>
        (.ok ((HttpStrategy.oauth2 auth).applyTo access options),
          { asking with
            cache := asking.cache.put service.clock auth.cacheKey access lifetime "Bearer" }) := by
  rcases hget : service.cache.get service.clock auth.cacheKey with ⟨found, cache⟩
  obtain rfl : found = none := by rwa [Lacks, hget] at h
  simp only [HttpStrategy.authorize, OAuth2Auth.token, asking, looked, hget, hrequest]
  cases OAuth2Auth.readAnswer auth.tokenUrl.display (service.endpoint.ask request).1 <;> rfl

/-- What applying a payload to a request comes to. -/
abbrev applied (service : TokenService) (auth : OAuth2Auth) (options : Request) :
    Except Fault Request × TokenService :=
  (HttpStrategy.oauth2 auth).authorize options service

/-- A token is kept under the key of the payload, and the request carries it. -/
def Fetches (service : TokenService) (auth : OAuth2Auth) (options : Request) : Prop :=
  ∃ access lifetime,
    (service.applied auth options).1 = .ok (options.setHeader "Authorization"
      (.text (HttpStrategy.bearerHeader "Bearer" access.display))) ∧
    (service.applied auth options).2.cache.lookup? auth.cacheKey =
      some ⟨access, Timeline.after service.clock lifetime, "Bearer"⟩

/-- No token is fetched, for a reason of the transport. What is kept stays, but for a token under
the key of the payload that has expired, and a step that waits for the token has a failed result and
sends nothing. -/
structure Fails (service : TokenService) (auth : OAuth2Auth) (options : Request) (why : Breakdown) :
    Prop where
  raised : (service.applied auth options).1 = .error (.transport why)
  found : ∀ key, (service.applied auth options).2.cache.lookup? key =
    if key = auth.cacheKey then none else service.cache.lookup? key
  kept : service.cache.lookup? auth.cacheKey = none →
    (service.applied auth options).2.cache = service.cache
  executed : ∀ (e : Engine) (w : World) (step : HttpStep), e.stage = .building →
    e.current = some (.http step) → step.request e.settings.http = .ok options →
    HttpStrategy.resolve (given step.auth e.settings.http.auth) = .ok (.oauth2 auth) →
    w.tokens = service →
    ∃ result e', e.execute World.runner w =
        (.ok result, e', { w with tokens := (service.applied auth options).2 }) ∧
      e'.result = some result ∧ result.success = false ∧ result.error = some (.transport why)

theorem execute_failed {options : Request} {why : Breakdown} {service' : TokenService}
    (h : service.applied auth options = (.error (.transport why), service')) {e : Engine} {w : World}
    {step : HttpStep} (hstage : e.stage = .building) (hcurrent : e.current = some (.http step))
    (hoptions : step.request e.settings.http = .ok options)
    (hresolve : HttpStrategy.resolve (given step.auth e.settings.http.auth) = .ok (.oauth2 auth))
    (htokens : w.tokens = service) :
    ∃ result e', e.execute World.runner w = (.ok result, e', { w with tokens := service' }) ∧
      e'.result = some result ∧ result.success = false ∧ result.error = some (.transport why) := by
  have hrun : w.run e.settings (.http step) =
      (.ok (step.failed w.now (.transport why)), { w with tokens := service' }) := by
    simp only [World.run, World.runHttp, hoptions, hresolve, ok_bind, pure, Except.pure, htokens, h]
    rfl
  refine ⟨step.failed w.now (.transport why), Engine.finish { e with stage := .executing }
    (.http step) (.ok (step.failed w.now (.transport why))), ?_, rfl, rfl, rfl⟩
  simp only [Engine.execute, hstage, hcurrent, World.runner, hrun]

theorem Lacks.fails (h : service.Lacks auth) {request : TokenRequest}
    (hrequest : auth.request = .ok request) {why : Breakdown}
    (hread : OAuth2Auth.readAnswer auth.tokenUrl.display (service.endpoint.ask request).1 =
      .error (.transport why)) (options : Request) : service.Fails auth options why := by
  have happlied : service.applied auth options =
      (.error (.transport why), service.asking auth request) := by
    rw [applied, h.authorize_asked hrequest, hread]
  refine ⟨by rw [happlied], fun key => ?_, fun hnothing => ?_, ?_⟩
  · rw [happlied]
    exact h.lookup?_looked key
  · rw [happlied, asking, looked_of_nothing hnothing]
  · intro e w step hstage hcurrent hoptions hresolve htokens
    rw [happlied]
    exact execute_failed happlied hstage hcurrent hoptions hresolve htokens

theorem Lacks.fetches (h : service.Lacks auth) {request : TokenRequest}
    (hrequest : auth.request = .ok request) {access : Value} {lifetime : Binary64}
    (hread : OAuth2Auth.readAnswer auth.tokenUrl.display (service.endpoint.ask request).1 =
      .ok (access, lifetime)) (options : Request) : service.Fetches auth options := by
  have happlied := h.authorize_asked hrequest options
  rw [hread] at happlied
  refine ⟨access, lifetime, by rw [applied, happlied]; rfl, ?_⟩
  rw [applied, happlied, TokenCache.lookup?_put, if_pos rfl]

theorem Lacks.raises (h : service.Lacks auth) {request : TokenRequest}
    (hrequest : auth.request = .ok request)
    (hlong : (service.endpoint.ask request).1.Outlasts) (options : Request) :
    (service.applied auth options).1 = .error .tooLarge := by
  rw [applied, h.authorize_asked hrequest, OAuth2Auth.readAnswer_of_outlasts hlong]

/-- A token that is fetched is kept and sent, or none is, and that is a failure of the transport and
of the step that waits for it. Only a lifetime that is too large for a double raises otherwise, and
a payload that cannot be asked for. -/
theorem fetches_or_fails (h : service.Lacks auth) (options : Request) :
    (∀ fault, auth.request = .error fault →
      service.applied auth options = (.error fault, service.looked auth)) ∧
    ∀ request, auth.request = .ok request →
      let answer := (service.endpoint.ask request).1
      ((service.applied auth options).1 = .error .tooLarge ↔ answer.Outlasts) ∧
      (¬answer.Outlasts →
        service.Fetches auth options ∨ ∃ why, service.Fails auth options why) := by
  refine ⟨fun fault hrequest => h.authorize_unasked hrequest options, fun request hrequest => ?_⟩
  intro answer
  have hended : ¬answer.Outlasts →
      service.Fetches auth options ∨ ∃ why, service.Fails auth options why := by
    intro hlong
    rcases OAuth2Auth.readAnswer_cases auth.tokenUrl.display answer with
      ⟨access, lifetime, hread⟩ | ⟨why, hread⟩ | hlong'
    · exact .inl (h.fetches hrequest hread options)
    · exact .inr ⟨why, h.fails hrequest hread options⟩
    · exact absurd hlong' hlong
  refine ⟨⟨fun hfault => ?_, fun hlong => h.raises hrequest hlong options⟩, hended⟩
  by_contra hlong
  rcases hended hlong with ⟨_, _, hsent, -⟩ | ⟨why, hfails⟩
  · cases hfault.symm.trans hsent
  · cases hfault.symm.trans hfails.raised

/-- A lifetime in words, where the token that was kept has expired. -/
theorem fetches_or_fails_soon :
    let auth : OAuth2Auth := ⟨.text "http://auth.test/token", .text "client", .text "secret",
      .clientCredentials, [], .null, .null, .null, .null, .null, []⟩
    let answer : Answer := .response ⟨200, [],
      Utf8.encode "\x7b\"access_token\": \"tok-1\", \"expires_in\": \"soon\"\x7d"⟩
    let service : TokenService :=
      ⟨TokenCache.empty.put (.ofInt 1000) auth.cacheKey (.text "old") (.ofInt 600) "Bearer",
        ⟨[some answer], fun _ => .unfinished, []⟩, .ofInt 1300⟩
    service.Lacks auth ∧ (∃ request, auth.request = .ok request) ∧ ¬answer.Outlasts ∧
      ∃ why, service.Fails auth default why := by
  intro auth answer service
  have hlacks : service.Lacks auth := Option.isNone_iff_eq_none.mp (by decide +kernel)
  have hrequest : (auth.request.toOption).isSome = true := by decide +kernel
  obtain ⟨request, hrequest⟩ := Option.isSome_iff_exists.mp hrequest
  rw [toOption_eq_some] at hrequest
  have hdeclared : answer.declared.text?.isSome = true := by decide +kernel
  have hlong : ¬answer.Outlasts := by
    rintro ⟨r, n, -, -, -, hint, -⟩
    rw [hint] at hdeclared
    cases hdeclared
  have hunsent : (service.applied auth default).1.toOption = none :=
    Option.isNone_iff_eq_none.mp (by decide +kernel)
  obtain ⟨-, hasked⟩ := fetches_or_fails hlacks default
  refine ⟨hlacks, ⟨request, hrequest⟩, hlong, ?_⟩
  rcases (hasked request hrequest).2 hlong with ⟨_, _, hsent, -⟩ | hfails
  · rw [hsent] at hunsent
    cases hunsent
  · exact hfails

end TokenService

namespace Answer

/-- The JSON text of a token for so many seconds. -/
def lastingText (seconds : Nat) : List Char :=
  "\x7b\"access_token\": \"tok-1\", \"expires_in\": ".toList ++
    (Nat.toDigits 10 seconds ++ ['\x7d'])

def lasting (seconds : Nat) : Answer :=
  .response ⟨200, [], Utf8.encode (String.ofList (lastingText seconds))⟩

theorem lastingText_eq (seconds : Nat) : lastingText seconds = Json.enclose .plain 0 '\x7b' '\x7d'
    [Json.writeText true "access_token" ++ ':' :: ([' '] ++ Json.writeText true "tok-1"),
      Json.writeText true "expires_in" ++ ':' :: ([' '] ++ Nat.toDigits 10 seconds)] := by
  have hgap : Json.Style.plain.between.1.toList = ',' :: [' '] := by decide +kernel
  have hbreak : ∀ depth, Json.Style.plain.lineBreak depth = [] := fun _ => rfl
  have hfront : "\x7b\"access_token\": \"tok-1\", \"expires_in\": ".toList =
      '\x7b' :: (Json.writeText true "access_token" ++ ':' :: ' ' :: Json.writeText true "tok-1") ++
        ',' :: ' ' :: (Json.writeText true "expires_in" ++ [':', ' ']) := by decide +kernel
  unfold lastingText
  simp only [hfront, Json.enclose_cons 0 hgap, Json.joined, hbreak,
    List.flatMap_cons, List.flatMap_nil, List.cons_append, List.append_assoc, List.nil_append]

theorem readsAs_lastingText {seconds : Nat} (h : Json.WritableInt seconds) :
    Json.ReadsAs .double (lastingText seconds)
      (Value.ofFields [("access_token", .text "tok-1"), ("expires_in", .int seconds)]) := by
  have hgap : Json.Gap [' '] := by
    intro c hc
    rw [List.mem_singleton.mp hc]
    rfl
  rw [lastingText_eq]
  refine Json.readsAs_map Json.spaced_plain 0 (by simp) (.cons ?_ (.cons ?_ .nil))
  · exact ⟨_, _, _, rfl, hgap, Json.readsAs_text true "tok-1"⟩
  · exact ⟨_, _, _, rfl, hgap, Json.readsAs_toDigits h⟩

theorem fields_lasting {seconds : Nat} (h : Json.WritableInt seconds) :
    (lasting seconds).fields =
      [(.text "access_token", .text "tok-1"), (.text "expires_in", .int seconds)] := by
  have hmark : Utf8.dropMark (Utf8.encode (String.ofList (lastingText seconds))) =
      Utf8.encode (String.ofList (lastingText seconds)) := by
    rw [Utf8.encode, String.toList_ofList]
    rfl
  have hread : Json.read .double (String.ofList (lastingText seconds)) = _ :=
    Json.read_of_readsAs (by rw [String.toList_ofList]; exact readsAs_lastingText h)
  rw [lasting, fields]
  simp only [hmark, Codec.decodeText_encode, Except.bind, Codec.readJson, hread]
  rfl

end Answer

namespace TokenService

/-- A lifetime of 310 digits, which is neither read nor a failure of the transport. -/
theorem outlasting_raises :
    let auth : OAuth2Auth := ⟨.text "http://auth.test/token", .text "client", .text "secret",
      .clientCredentials, [], .null, .null, .null, .null, .null, []⟩
    let service : TokenService :=
      ⟨.empty, ⟨[some (.lasting (10 ^ 309))], fun _ => .unfinished, []⟩, .ofInt 1000⟩
    (HttpStrategy.resolve (some (.ofOAuth2 auth))).isOk = true ∧ service.Lacks auth ∧
      (service.applied auth default).1 = .error .tooLarge ∧
      Fault.tooLarge.kind.isA .transport = false := by
  intro auth service
  have hlacks : service.Lacks auth := rfl
  have hrequest : (auth.request.toOption).isSome = true := by decide +kernel
  obtain ⟨request, hrequest⟩ := Option.isSome_iff_exists.mp hrequest
  rw [toOption_eq_some] at hrequest
  have hfields := Answer.fields_lasting (show Json.WritableInt (10 ^ 309 : Nat) by decide +kernel)
  have hlong : (Answer.lasting (10 ^ 309)).Outlasts := by
    refine ⟨_, (10 ^ 309 : Nat), rfl, by decide, ?_, ?_, by decide +kernel⟩
    · rw [Answer.access, hfields]
      rfl
    · rw [Answer.declared, hfields]
      rfl
  exact ⟨by decide +kernel, hlacks, hlacks.raises hrequest hlong default, rfl⟩

end TokenService

end Rehearsal
