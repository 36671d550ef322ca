import Rehearsal.Auth.TokenService
import Rehearsal.Proofs.Auth.Cache

/-! Runs of requests that are authorised with fetched tokens. A token that the cache finds after a
run is the one last received under its key. -/

namespace Rehearsal

/-- A request to authorise, at a moment that the clock shows and its exact time. -/
structure TokenCall where
  auth : OAuth2Auth
  request : Request
  now : Binary64
  time : Rat
  exact_time : now.toRat? = some time

/-- The request with a token in it. -/
def TokenCall.carrying (call : TokenCall) (access : Value) : Request :=
  call.request.setHeader "Authorization" (.text (HttpStrategy.bearerHeader "Bearer" access.display))

/-- What was asked for a token, the answer, and the token and lifetime read from it. -/
structure Reception where
  request : TokenRequest
  answer : Answer
  access : Value
  lifetime : Binary64

/-- A call of a run, with what was received for it if the endpoint was asked and gave a token. -/
structure TokenUse where
  call : TokenCall
  reception : Option Reception

namespace TokenService

def authorize (service : TokenService) (call : TokenCall) : Except Fault Request × TokenService :=
  (HttpStrategy.oauth2 call.auth).authorize call.request { service with clock := call.now }

def cached? (service : TokenService) (call : TokenCall) : Option (CachedToken Binary64 Value) :=
  (service.cache.get call.now call.auth.cacheKey).1

/-- What is received for a call: nothing if a token is cached, or if asking for one fails. -/
def received? (service : TokenService) (call : TokenCall) : Option Reception :=
  match service.cached? call, call.auth.request with
  | none, .ok request =>
    let answer := (service.endpoint.ask request).1
    match OAuth2Auth.readAnswer call.auth.tokenUrl.display answer with
    | .ok (access, lifetime) => some ⟨request, answer, access, lifetime⟩
    | .error _ => none
  | _, _ => none

def after (service : TokenService) (calls : List TokenCall) : TokenService :=
  calls.foldl (fun service call => (service.authorize call).2) service

def trace (service : TokenService) : List TokenCall → List TokenUse
  | [] => []
  | call :: rest => ⟨call, service.received? call⟩ :: (service.authorize call).2.trace rest

theorem after_snoc (service : TokenService) (calls : List TokenCall) (call : TokenCall) :
    service.after (calls ++ [call]) = ((service.after calls).authorize call).2 := by
  simp only [after, List.foldl_append, List.foldl_cons, List.foldl_nil]

theorem trace_snoc (service : TokenService) (calls : List TokenCall) (call : TokenCall) :
    service.trace (calls ++ [call]) =
      service.trace calls ++ [⟨call, (service.after calls).received? call⟩] := by
  induction calls generalizing service with
  | nil => rfl
  | cons first rest ih =>
    simp only [List.cons_append, trace, ih]
    rfl

variable {service : TokenService} {call : TokenCall}

theorem received?_spec {reception : Reception} (h : service.received? call = some reception) :
    service.cached? call = none ∧ call.auth.request = .ok reception.request ∧
      (service.endpoint.ask reception.request).1 = reception.answer ∧
      OAuth2Auth.readAnswer call.auth.tokenUrl.display reception.answer =
        .ok (reception.access, reception.lifetime) := by
  rw [received?] at h
  split at h
  · rename_i request hcached hrequest
    dsimp only at h
    split at h
    · rename_i access lifetime hread
      obtain rfl := Option.some.inj h
      exact ⟨hcached, hrequest, rfl, hread⟩
    · cases h
  · cases h

/-! A call comes to one of four ends: it carries the token in the cache, it carries a received one,
which is kept, or it fails, before anything is asked or by the answer. -/

theorem authorize_of_cached {token : CachedToken Binary64 Value}
    (h : service.cached? call = some token) :
    service.authorize call = (.ok (call.carrying token.access),
      { service with
        clock := call.now
        cache := (service.cache.get call.now call.auth.cacheKey).2 }) := by
  rcases hget : service.cache.get call.now call.auth.cacheKey with ⟨found, cache⟩
  obtain rfl : found = some token := by rwa [cached?, hget] at h
  simp only [authorize, HttpStrategy.authorize, OAuth2Auth.token, hget]
  rfl

theorem authorize_of_received {reception : Reception}
    (h : service.received? call = some reception) :
    service.authorize call = (.ok (call.carrying reception.access),
      { clock := call.now
        endpoint := (service.endpoint.ask reception.request).2
        cache := (service.cache.get call.now call.auth.cacheKey).2.put call.now call.auth.cacheKey
          reception.access reception.lifetime "Bearer" }) := by
  obtain ⟨hcached, hrequest, hanswer, hread⟩ := received?_spec h
  rcases hget : service.cache.get call.now call.auth.cacheKey with ⟨found, cache⟩
  obtain rfl : found = none := by rwa [cached?, hget] at hcached
  rcases hask : service.endpoint.ask reception.request with ⟨answer, endpoint⟩
  obtain rfl : answer = reception.answer := by rwa [hask] at hanswer
  simp only [authorize, HttpStrategy.authorize, OAuth2Auth.token, hget, hrequest, hask, hread]
  rfl

theorem authorize_of_unasked {fault : Fault} (hcached : service.cached? call = none)
    (hrequest : call.auth.request = .error fault) :
    service.authorize call = (.error fault,
      { service with
        clock := call.now
        cache := (service.cache.get call.now call.auth.cacheKey).2 }) := by
  rcases hget : service.cache.get call.now call.auth.cacheKey with ⟨found, cache⟩
  obtain rfl : found = none := by rwa [cached?, hget] at hcached
  simp only [authorize, HttpStrategy.authorize, OAuth2Auth.token, hget, hrequest]

theorem authorize_of_unread {fault : Fault} {request : TokenRequest}
    (hcached : service.cached? call = none) (hrequest : call.auth.request = .ok request)
    (hread : OAuth2Auth.readAnswer call.auth.tokenUrl.display (service.endpoint.ask request).1 =
      .error fault) :
    service.authorize call = (.error fault,
      { clock := call.now
        endpoint := (service.endpoint.ask request).2
        cache := (service.cache.get call.now call.auth.cacheKey).2 }) := by
  rcases hget : service.cache.get call.now call.auth.cacheKey with ⟨found, cache⟩
  obtain rfl : found = none := by rwa [cached?, hget] at hcached
  simp only [authorize, HttpStrategy.authorize, OAuth2Auth.token, hget, hrequest, hread]

theorem authorize_of_neither (hcached : service.cached? call = none)
    (hreceived : service.received? call = none) :
    ∃ fault, (service.authorize call).1 = .error fault ∧
      (service.authorize call).2.cache = (service.cache.get call.now call.auth.cacheKey).2 := by
  cases hrequest : call.auth.request with
  | error fault =>
    rw [authorize_of_unasked hcached hrequest]
    exact ⟨fault, rfl, rfl⟩
  | ok request =>
    cases hread : OAuth2Auth.readAnswer call.auth.tokenUrl.display
        (service.endpoint.ask request).1 with
    | error fault =>
      rw [authorize_of_unread hcached hrequest hread]
      exact ⟨fault, rfl, rfl⟩
    | ok issued => simp [received?, hcached, hrequest, hread] at hreceived

theorem trace_spec {calls : List TokenCall} {use : TokenUse}
    {reception : Reception} (hmem : use ∈ service.trace calls)
    (h : use.reception = some reception) :
    use.call.auth.request = .ok reception.request ∧
      OAuth2Auth.readAnswer use.call.auth.tokenUrl.display reception.answer =
        .ok (reception.access, reception.lifetime) := by
  induction calls generalizing service with
  | nil => cases hmem
  | cons call rest ih =>
    rcases List.mem_cons.mp hmem with rfl | hmem
    · obtain ⟨-, hrequest, -, hread⟩ := received?_spec h
      exact ⟨hrequest, hread⟩
    · exact ih hmem

theorem cached?_after_received {reception : Reception} {next : TokenCall}
    (h : service.received? call = some reception) (hkey : next.auth.cacheKey = call.auth.cacheKey) :
    (service.after [call]).cached? next =
      (some ⟨reception.access, call.now.add reception.lifetime, "Bearer"⟩ :
        Option (CachedToken Binary64 Value)).filter (·.isValid next.now) := by
  rw [cached?, TokenCache.get_eq, after, List.foldl_cons, List.foldl_nil, authorize_of_received h,
    TokenCache.lookup?_put, if_pos hkey]
  rfl

/-- Whether a token is the one last received under a key. -/
def LastReceived (uses : List TokenUse) (key : String) (token : CachedToken Binary64 Value) :
    Prop :=
  ∃ earlier giver reception later, uses = earlier ++ ⟨giver, some reception⟩ :: later ∧
    giver.auth.cacheKey = key ∧
    token = ⟨reception.access, giver.now.add reception.lifetime, "Bearer"⟩ ∧
    ∀ use ∈ later, use.call.auth.cacheKey = key → use.reception = none

variable {uses : List TokenUse} {key : String} {token : CachedToken Binary64 Value}

theorem LastReceived.skip (h : LastReceived uses key token) {use : TokenUse}
    (huse : use.call.auth.cacheKey = key → use.reception = none) :
    LastReceived (uses ++ [use]) key token := by
  obtain ⟨earlier, giver, reception, later, rfl, hkey, htoken, hlater⟩ := h
  refine ⟨earlier, giver, reception, later ++ [use], by simp, hkey, htoken, ?_⟩
  intro other hother
  rcases List.mem_append.mp hother with hother | hother
  · exact hlater other hother
  · rwa [List.mem_singleton.mp hother]

/-- Each token that a cache finds is the one last received under its key. -/
def Remembers (uses : List TokenUse) (cache : TokenCache Binary64 Value) : Prop :=
  ∀ key token, cache.lookup? key = some token → LastReceived uses key token

theorem Remembers.authorize (h : Remembers uses service.cache)
    (call : TokenCall) :
    Remembers (uses ++ [⟨call, service.received? call⟩]) (service.authorize call).2.cache := by
  have hleft : ∀ key token,
      (service.cache.get call.now call.auth.cacheKey).2.lookup? key = some token →
      LastReceived uses key token := by
    intro key token hfound
    rw [TokenCache.lookup?_get] at hfound
    split_ifs at hfound with hkey
    · rw [hkey]
      exact h _ token (Option.filter_eq_some_iff.mp hfound).1
    · exact h key token hfound
  intro key token hfound
  cases hreceived : service.received? call with
  | some reception =>
    rw [authorize_of_received hreceived, TokenCache.lookup?_put] at hfound
    split_ifs at hfound with hkey
    · obtain rfl := Option.some.inj hfound
      exact ⟨uses, call, reception, [], rfl, hkey.symm, rfl, by simp⟩
    · exact (hleft key token hfound).skip fun hsame => absurd hsame.symm hkey
  | none =>
    -- nothing is put
    refine LastReceived.skip ?_ fun _ => rfl
    cases hcached : service.cached? call with
    | some cached =>
      rw [authorize_of_cached hcached] at hfound
      exact hleft key token hfound
    | none =>
      obtain ⟨fault, -, hcache⟩ := authorize_of_neither hcached hreceived
      rw [hcache] at hfound
      exact hleft key token hfound

theorem remembers_after {start : TokenService} (h : start.cache = .empty) (calls : List TokenCall) :
    Remembers (start.trace calls) (start.after calls).cache := by
  induction calls using List.reverseRecOn with
  | nil =>
    intro key token hfound
    rw [after, List.foldl_nil, h] at hfound
    cases hfound
  | append_singleton calls call ih =>
    rw [trace_snoc, after_snoc]
    exact ih.authorize call

end TokenService

end Rehearsal
