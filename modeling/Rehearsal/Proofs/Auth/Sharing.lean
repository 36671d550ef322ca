import Mathlib.Data.List.Basic
import Rehearsal.Proofs.Auth.TokenRun
import Rehearsal.Proofs.Fallible
import Rehearsal.Proofs.Number.Rounding

/-! One cache of tokens for many payloads. A token is kept under the identity of a client and the
address of its endpoint. So what a payload is served with was received for a payload of its client,
and calls for other clients make no difference to it: a run of the calls of one client alone, with
an endpoint that answers them as it did, comes to the same. Payloads of one client do share tokens,
though they may differ in the user or the grant that the token is for. The key is a text in which
colons stand between its parts, so it tells clients apart as long as their identities have none. -/

namespace Rehearsal

/-- Whether two payloads are of one client at one endpoint. -/
def OAuth2Auth.SameClient (a b : OAuth2Auth) : Prop :=
  a.clientId.display = b.clientId.display ∧ a.tokenUrl.display = b.tokenUrl.display

instance (a b : OAuth2Auth) : Decidable (a.SameClient b) := inferInstanceAs (Decidable (_ ∧ _))

theorem OAuth2Auth.SameClient.cacheKey {a b : OAuth2Auth} (h : a.SameClient b) :
    a.cacheKey = b.cacheKey := by
  rw [OAuth2Auth.cacheKey, OAuth2Auth.cacheKey, h.1, h.2]

/-- Whether the keys of the cache tell the clients of these calls apart. -/
def TellsApart (calls : List TokenCall) : Prop :=
  ∀ a ∈ calls, ∀ b ∈ calls, a.auth.cacheKey = b.auth.cacheKey → a.auth.SameClient b.auth

instance (calls : List TokenCall) : Decidable (TellsApart calls) :=
  inferInstanceAs (Decidable (∀ a ∈ calls, ∀ b ∈ calls,
    a.auth.cacheKey = b.auth.cacheKey → a.auth.SameClient b.auth))

theorem upToColon {chars : List Char} (h : ':' ∉ chars) (rest : List Char) :
    (chars ++ ':' :: rest).takeWhile (· != ':') = chars := by
  rw [List.takeWhile_append_of_pos, List.takeWhile_cons_of_neg (by simp), List.append_nil]
  intro c hc
  have hne : c ≠ ':' := by
    rintro rfl
    exact h hc
  simp [hne]

theorem tellsApart_of_no_colon {calls : List TokenCall}
    (h : ∀ call ∈ calls, ':' ∉ call.auth.clientId.display.toList) : TellsApart calls := by
  intro a ha b hb hkey
  have hchars := congrArg String.toList hkey
  simp only [OAuth2Auth.cacheKey, TokenCache.keyFor, String.toList_append, List.append_assoc] at hchars
  have hparts : a.auth.clientId.display.toList ++ ':' :: a.auth.tokenUrl.display.toList =
      b.auth.clientId.display.toList ++ ':' :: b.auth.tokenUrl.display.toList :=
    List.append_cancel_left hchars
  have hid : a.auth.clientId.display.toList = b.auth.clientId.display.toList := by
    rw [← upToColon (h a ha) a.auth.tokenUrl.display.toList, hparts, upToColon (h b hb)]
  rw [hid] at hparts
  have hurl := (List.cons.inj (List.append_cancel_left hparts)).2
  exact ⟨String.toList_injective hid, String.toList_injective hurl⟩

namespace TokenService

/-- What the endpoint answers for a call, if it is asked. -/
def asked? (service : TokenService) (call : TokenCall) : Option Answer :=
  match service.cached? call, call.auth.request with
  | none, .ok request => some (service.endpoint.ask request).1
  | _, _ => none

/-- The answers of the endpoint in a run, each with its call. -/
def answers (service : TokenService) : List TokenCall → List (TokenCall × Answer)
  | [] => []
  | call :: rest =>
    ((service.asked? call).map (call, ·)).toList ++ (service.authorize call).2.answers rest

/-- What the calls of a run come to. -/
def outcomes (service : TokenService) : List TokenCall → List (TokenCall × Except Fault Request)
  | [] => []
  | call :: rest =>
    (call, (service.authorize call).1) :: (service.authorize call).2.outcomes rest

/-- The service with an endpoint that goes through the answers to some of the calls of a run. -/
def answering (service : TokenService) (calls : List TokenCall) (own : TokenCall → Bool) :
    TokenService :=
  { service with
    endpoint := { service.endpoint with
      script := ((service.answers calls).filter (own ·.1)).map fun answered => some answered.2 } }

variable {service : TokenService} {call : TokenCall}

theorem trace_split {calls : List TokenCall} {earlier later : List TokenUse} {use : TokenUse}
    (h : service.trace calls = earlier ++ use :: later) :
    ∃ front back, calls = front ++ use.call :: back ∧
      (service.after front).received? use.call = use.reception := by
  induction calls generalizing service earlier with
  | nil => simp [trace] at h
  | cons first rest ih =>
    cases earlier with
    | nil =>
      obtain ⟨rfl, -⟩ := List.cons.inj h
      exact ⟨[], rest, rfl, rfl⟩
    | cons _ earlier =>
      obtain ⟨front, back, rfl, hreception⟩ := ih (List.cons.inj h).2
      exact ⟨first :: front, back, rfl, hreception⟩

/-- A token that is received is read from the answer to a request that the endpoint gets. -/
theorem received?_asks {reception : Reception} (h : service.received? call = some reception) :
    (service.authorize call).2.endpoint = (service.endpoint.ask reception.request).2 := by
  rw [authorize_of_received h]

theorem lookup?_authorize {key : String} (h : key ≠ call.auth.cacheKey) :
    (service.authorize call).2.cache.lookup? key = service.cache.lookup? key := by
  have hget : (service.cache.get call.now call.auth.cacheKey).2.lookup? key =
      service.cache.lookup? key := by
    rw [TokenCache.lookup?_get, if_neg h]
  cases hreceived : service.received? call with
  | some reception =>
    rw [authorize_of_received hreceived, TokenCache.lookup?_put, if_neg h, hget]
  | none =>
    cases hcached : service.cached? call with
    | some token => rw [authorize_of_cached hcached, hget]
    | none =>
      obtain ⟨fault, -, hcache⟩ := authorize_of_neither hcached hreceived
      rw [hcache, hget]

theorem ask_script {Q A : Type} {e : Endpoint Q A} {answer : A} {rest : List (Option A)}
    (h : e.script = some answer :: rest) (request : Q) :
    (e.ask request).1 = answer ∧ (e.ask request).2.script = rest := by
  simp only [Endpoint.ask, h]
  exact ⟨trivial, trivial⟩

/-- Two services of which the caches have the same under the key of a call, and of which one
answers as the other does, serve the call alike. -/
theorem authorize_alike {full alone : TokenService} {rest : List (Option Answer)}
    (hcache : full.cache.lookup? call.auth.cacheKey = alone.cache.lookup? call.auth.cacheKey)
    (hscript : alone.endpoint.script = ((full.asked? call).map some).toList ++ rest) :
    (alone.authorize call).1 = (full.authorize call).1 ∧
      (full.authorize call).2.cache.lookup? call.auth.cacheKey =
        (alone.authorize call).2.cache.lookup? call.auth.cacheKey ∧
      (alone.authorize call).2.endpoint.script = rest := by
  have hsame : alone.cached? call = full.cached? call := by
    rw [cached?, cached?, TokenCache.get_eq, TokenCache.get_eq, hcache]
  have hget : (full.cache.get call.now call.auth.cacheKey).2.lookup? call.auth.cacheKey =
      (alone.cache.get call.now call.auth.cacheKey).2.lookup? call.auth.cacheKey := by
    rw [TokenCache.lookup?_get, TokenCache.lookup?_get, if_pos rfl, if_pos rfl, hcache]
  cases hcached : full.cached? call with
  | some token =>
    rw [hcached] at hsame
    rw [asked?, hcached] at hscript
    rw [authorize_of_cached hcached, authorize_of_cached hsame]
    exact ⟨rfl, hget, hscript⟩
  | none =>
    rw [hcached] at hsame
    -- neither has a token: both ask, and the same is answered
    cases hrequest : call.auth.request with
    | error fault =>
      rw [asked?, hcached, hrequest] at hscript
      rw [authorize_of_unasked hcached hrequest, authorize_of_unasked hsame hrequest]
      exact ⟨rfl, hget, hscript⟩
    | ok request =>
      rw [asked?, hcached, hrequest] at hscript
      obtain ⟨hanswer, hrest⟩ := ask_script hscript request
      cases hread : OAuth2Auth.readAnswer call.auth.tokenUrl.display
          (full.endpoint.ask request).1 with
      | error fault =>
        rw [authorize_of_unread hcached hrequest hread,
          authorize_of_unread hsame hrequest (by rw [hanswer, hread])]
        exact ⟨rfl, hget, hrest⟩
      | ok issued =>
        obtain ⟨access, lifetime⟩ := issued
        have hfull : full.received? call =
            some ⟨request, (full.endpoint.ask request).1, access, lifetime⟩ := by
          simp only [received?, hcached, hrequest, hread]
        have halone : alone.received? call =
            some ⟨request, (full.endpoint.ask request).1, access, lifetime⟩ := by
          simp only [received?, hsame, hrequest, hanswer, hread]
        rw [authorize_of_received hfull, authorize_of_received halone]
        refine ⟨rfl, ?_, hrest⟩
        rw [TokenCache.lookup?_put, TokenCache.lookup?_put, if_pos rfl, if_pos rfl]

/-- The calls under one key come to the same in a run and in one of them alone. -/
theorem outcomes_alone {key : String} {own : TokenCall → Bool} {calls : List TokenCall}
    (hown : ∀ call ∈ calls, own call = true ↔ call.auth.cacheKey = key)
    {full alone : TokenService} (hcache : full.cache.lookup? key = alone.cache.lookup? key)
    (hscript : alone.endpoint.script =
      ((full.answers calls).filter (own ·.1)).map fun answered => some answered.2) :
    alone.outcomes (calls.filter own) = (full.outcomes calls).filter (own ·.1) := by
  induction calls generalizing full alone with
  | nil => rfl
  | cons call rest ih =>
    have hrest := fun later hlater => hown later (List.mem_cons_of_mem call hlater)
    cases hcall : own call with
    | false =>
      have hkey : key ≠ call.auth.cacheKey := fun heq => by
        rw [(hown call List.mem_cons_self).mpr heq.symm] at hcall
        cases hcall
      have hlater := ih hrest ((lookup?_authorize hkey).trans hcache) (by
        rw [hscript, answers, List.filter_append]
        cases full.asked? call <;> simp [hcall])
      simpa [outcomes, hcall] using hlater
    | true =>
      have hkey := (hown call List.mem_cons_self).mp hcall
      subst hkey
      have hsplit : alone.endpoint.script = ((full.asked? call).map some).toList ++
          (((full.authorize call).2.answers rest).filter (own ·.1)).map fun answered =>
            some answered.2 := by
        rw [hscript, answers, List.filter_append, List.map_append]
        cases full.asked? call <;> simp [hcall]
      obtain ⟨hsame, hcache', hscript'⟩ := authorize_alike hcache hsplit
      have hlater := ih hrest hcache' hscript'
      simpa [outcomes, hcall, hsame] using hlater

/-- Payloads of many clients served from one cache that tells the clients apart. Whatever a call is
served with, the endpoint returned it in this run for a request of a payload of the same client: for
this call, or for an earlier one while which it was kept. And what the calls of a client come to
depends on no other client: it is what a run of these calls alone comes to, with an endpoint that
gives them the answers it gave. -/
theorem clients_kept_apart (start : TokenService) (hempty : start.cache = .empty)
    (calls : List TokenCall) (htell : TellsApart calls) :
    (∀ before call after sent, calls = before ++ call :: after →
      ((start.after before).authorize call).1 = .ok sent →
      ∃ front giver back request access lifetime,
        before ++ [call] = front ++ giver :: back ∧ giver.auth.SameClient call.auth ∧
        giver.auth.request = .ok request ∧
        ((start.after front).authorize giver).2.endpoint =
          ((start.after front).endpoint.ask request).2 ∧
        OAuth2Auth.readAnswer call.auth.tokenUrl.display
          ((start.after front).endpoint.ask request).1 = .ok (access, lifetime) ∧
        sent = call.carrying access) ∧
    ∀ call ∈ calls,
      let own := fun other : TokenCall => decide (other.auth.SameClient call.auth)
      (start.answering calls own).outcomes (calls.filter own) =
        (start.outcomes calls).filter (own ·.1) := by
  refine ⟨?_, ?_⟩
  · intro before call after sent hcalls hsent
    cases hreceived : (start.after before).received? call with
    | some reception =>
      obtain ⟨-, hrequest, hanswer, hread⟩ := received?_spec hreceived
      rw [authorize_of_received hreceived] at hsent
      cases hsent
      exact ⟨before, call, [], reception.request, reception.access, reception.lifetime, rfl,
        ⟨rfl, rfl⟩, hrequest, received?_asks hreceived, by rw [hanswer, hread], rfl⟩
    | none =>
      -- the endpoint gave nothing for this call, so it is served with a token that was kept
      cases hcached : (start.after before).cached? call with
      | none =>
        obtain ⟨fault, hfault, -⟩ := authorize_of_neither hcached hreceived
        rw [hfault] at hsent
        cases hsent
      | some token =>
        rw [authorize_of_cached hcached] at hsent
        cases hsent
        have hkept : (start.after before).cache.lookup? call.auth.cacheKey = some token := by
          rw [cached?, TokenCache.get_eq] at hcached
          exact (Option.filter_eq_some_iff.mp hcached).1
        obtain ⟨earlier, giver, reception, later, htrace, hkey, rfl, -⟩ :=
          remembers_after hempty before _ token hkept
        obtain ⟨front, back, hbefore, hgave⟩ := trace_split htrace
        obtain ⟨-, hrequest, hanswer, hread⟩ := received?_spec hgave
        have hclient : giver.auth.SameClient call.auth :=
          htell giver (by simp [hcalls, hbefore]) call (by simp [hcalls]) hkey
        refine ⟨front, giver, back ++ [call], reception.request, reception.access,
          reception.lifetime, by simp [hbefore], hclient, hrequest, received?_asks hgave, ?_, rfl⟩
        rw [hanswer, ← hclient.2, hread]
  · intro call hcall own
    -- the calls of a client are those under its key
    have hown : ∀ other ∈ calls, own other = true ↔ other.auth.cacheKey = call.auth.cacheKey := by
      intro other hother
      rw [decide_eq_true_iff]
      exact ⟨OAuth2Auth.SameClient.cacheKey, htell other hother call hcall⟩
    exact outcomes_alone hown rfl rfl

/-- Two clients at one endpoint, the first of which is served again from the cache. -/
theorem clients_kept_apart_two :
    let client (id : String) : OAuth2Auth :=
      ⟨.text "http://auth.test/token", .text id, .text "secret", .clientCredentials, [], .null,
        .null, .null, .null, .null, []⟩
    let answer (token : String) : Option Answer := some (.response ⟨200, [],
      Utf8.encode ("\x7b\"access_token\": \"" ++ token ++ "\"\x7d")⟩)
    let start : TokenService :=
      ⟨.empty, ⟨[answer "tok-1", answer "tok-2"], fun _ => .unfinished, []⟩, .ofInt 1000⟩
    let call (id : String) : TokenCall :=
      ⟨client id, default, .ofInt 1000, (1000 : Int), Binary64.toRat?_ofInt (by decide)⟩
    let before := [call "one", call "two"]
    let own := fun other : TokenCall => decide (other.auth.SameClient (client "one"))
    start.cache = .empty ∧ TellsApart (before ++ [call "one"]) ∧
      (∃ sent, ((start.after before).authorize (call "one")).1 = .ok sent ∧
        ∃ front giver back access, before ++ [call "one"] = front ++ giver :: back ∧
          giver.auth.SameClient (client "one") ∧ sent = (call "one").carrying access) ∧
      (start.answering (before ++ [call "one"]) own).outcomes [call "one", call "one"] =
        (start.outcomes (before ++ [call "one"])).filter (own ·.1) := by
  intro client answer start call before own
  have htell : TellsApart (before ++ [call "one"]) := tellsApart_of_no_colon (by decide +kernel)
  have hcached : ((start.after before).cached? (call "one")).isSome = true := by decide +kernel
  obtain ⟨token, hcached⟩ := Option.isSome_iff_exists.mp hcached
  have hsent : ((start.after before).authorize (call "one")).1 =
      .ok ((call "one").carrying token.access) := by
    rw [authorize_of_cached hcached]
  obtain ⟨hserved, halone⟩ := clients_kept_apart start rfl (before ++ [call "one"]) htell
  obtain ⟨front, giver, back, _, access, _, hsplit, hclient, -, -, -, hcarrying⟩ :=
    hserved before (call "one") [] _ rfl hsent
  refine ⟨rfl, htell, ⟨_, hsent, front, giver, back, access, hsplit, hclient, hcarrying⟩, ?_⟩
  have hown : (before ++ [call "one"]).filter own = [call "one", call "one"] := rfl
  rw [← hown]
  exact halone (call "one") (by simp)

/-- Two users of one client: the second is served with the token of the first, and the form with the
second's name is never sent. -/
theorem users_not_kept_apart :
    let user (name : String) : OAuth2Auth :=
      ⟨.text "http://auth.test/token", .text "client", .text "secret", .password, [], .text name,
        .text "word", .null, .null, .null, []⟩
    let answer : Answer := .response ⟨200, [],
      Utf8.encode "\x7b\"access_token\": \"tok-1\"\x7d"⟩
    let start : TokenService := ⟨.empty, ⟨[some answer], fun _ => .unfinished, []⟩, .ofInt 1000⟩
    let call (name : String) : TokenCall :=
      ⟨user name, default, .ofInt 1000, (1000 : Int), Binary64.toRat?_ofInt (by decide)⟩
    ∃ reception other, start.received? (call "alice") = some reception ∧
      ((start.after [call "alice"]).authorize (call "bob")).1 =
        .ok ((call "bob").carrying reception.access) ∧
      (user "bob").request = .ok other ∧ other ≠ reception.request ∧
      (start.after [call "alice", call "bob"]).endpoint.received = [reception.request] := by
  intro user answer start call
  have hreceived : (start.received? (call "alice")).isSome = true := by decide +kernel
  obtain ⟨reception, hreceived⟩ := Option.isSome_iff_exists.mp hreceived
  have hother : ((user "bob").request.toOption).isSome = true := by decide +kernel
  obtain ⟨other, hother⟩ := Option.isSome_iff_exists.mp hother
  have hdiffer : (user "bob").request.toOption ≠ (user "alice").request.toOption := by
    decide +kernel
  rw [hother, toOption_eq_some.mpr (received?_spec hreceived).2.1] at hdiffer
  have hcached : ((start.after [call "alice"]).cached? (call "bob")).isSome = true := by
    decide +kernel
  obtain ⟨token, hcached⟩ := Option.isSome_iff_exists.mp hcached
  have hmade := authorize_of_cached hcached
  have hkey : (call "bob").auth.cacheKey = (call "alice").auth.cacheKey := rfl
  rw [cached?_after_received hreceived hkey] at hcached
  obtain rfl := Option.some.inj (Option.filter_eq_some_iff.mp hcached).1
  refine ⟨reception, other, hreceived, ?_, toOption_eq_some.mp hother, ?_, ?_⟩
  · rw [hmade]
  · exact fun heq => hdiffer (congrArg some heq)
  · have hboth : start.after [call "alice", call "bob"] =
        ((start.after [call "alice"]).authorize (call "bob")).2 := rfl
    have hfirst : (start.after [call "alice"]).endpoint =
        (start.endpoint.ask reception.request).2 := received?_asks hreceived
    rw [hboth, hmade, hfirst]
    rfl

end TokenService

end Rehearsal
