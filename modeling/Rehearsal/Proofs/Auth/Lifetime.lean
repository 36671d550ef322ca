import Rehearsal.Proofs.Auth.TokenRun
import Rehearsal.Proofs.Value.Float

/-! How long a fetched token is used. A token is sent again only before the end of the lifetime that
was read from its answer, less the buffer, and so it is in exact numbers, though the clock and the
lifetime are doubles. The lifetime read is the declared one, unless the answer declares none or
one that counts as absent, as zero does: then it is the default. -/

namespace Rehearsal

/-- The fields of the object that an answer carries; none if it carries no object. -/
def Answer.fields : Answer → List (Value × Value)
  | .response r =>
    match (Codec.decodeText (Utf8.dropMark r.body)).bind Codec.readJson with
    | .ok (.map fields) => fields
    | _ => []
  | _ => []

/-- The lifetime that an answer declares, null if it declares none. -/
def Answer.declared (answer : Answer) : Value :=
  (Value.fieldIn? "expires_in" answer.fields).getD .null

def Value.isInt (k : Int) : Value → Bool
  | .int n => n == k
  | _ => false

theorem Value.eq_of_isInt {k : Int} {value : Value} (h : value.isInt k = true) :
    value = .int k := by
  cases value with
  | int n => rw [eq_of_beq h]
  | _ => cases h

namespace OAuth2Auth

variable {url : String} {answer : Answer} {access : Value} {lifetime : Binary64}

theorem readAnswer_fields (h : readAnswer url answer = .ok (access, lifetime)) :
    access = (Value.fieldIn? "access_token" answer.fields).getD .null ∧
      (if answer.declared.truthy then answer.declared else .int defaultLifetime).toFloat =
        .ok lifetime := by
  cases answer with
  | timedOut why => cases h
  | failed why => cases h
  | unfinished => cases h
  | response r =>
    by_cases hstatus : 400 ≤ r.status
    · rw [readAnswer, if_pos hstatus] at h
      cases h
    rw [readAnswer, if_neg hstatus] at h
    split at h
    · cases h
    · rename_i fields hread
      have hfields : (Answer.response r).fields = fields := by rw [Answer.fields, hread]
      rw [Answer.declared, hfields]
      dsimp only at h
      by_cases haccess : (!((Value.fieldIn? "access_token" fields).getD .null).truthy) = true
      · rw [if_pos haccess] at h
        cases h
      rw [if_neg haccess] at h
      generalize (if ((Value.fieldIn? "expires_in" fields).getD .null).truthy then
        (Value.fieldIn? "expires_in" fields).getD .null else .int defaultLifetime) = given at h ⊢
      cases hgiven : given.toFloat with
      | ok seconds =>
        simp only [hgiven, Except.ok.injEq, Prod.mk.injEq] at h
        obtain ⟨rfl, rfl⟩ := h
        exact ⟨rfl, rfl⟩
      | error fault =>
        simp only [hgiven] at h
        split_ifs at h
    · cases h

theorem readAnswer_declared (h : readAnswer url answer = .ok (access, lifetime))
    (hdeclared : answer.declared.truthy = true) : answer.declared.toFloat = .ok lifetime := by
  obtain ⟨-, hlifetime⟩ := readAnswer_fields h
  rwa [if_pos hdeclared] at hlifetime

theorem readAnswer_default (h : readAnswer url answer = .ok (access, lifetime))
    (hdeclared : answer.declared.truthy = false) : lifetime = .ofInt defaultLifetime := by
  obtain ⟨-, hlifetime⟩ := readAnswer_fields h
  rw [if_neg (by simp [hdeclared])] at hlifetime
  exact (Except.ok.inj hlifetime).symm

end OAuth2Auth

namespace Binary64

/-- Whether a moment is at least the buffer before the end of a lifetime, in exact numbers. -/
def InTime (now start : Rat) (lifetime : Binary64) : Prop :=
  lifetime = .infinity false ∨
    ∃ seconds, lifetime.toRat? = some seconds ∧ now + 300 < start + seconds

theorem not_less_nan (x : Binary64) : less x .nan = false := by
  cases x <;> rfl

theorem not_less_least (x : Binary64) : less x (.infinity true) = false := by
  cases x with
  | nan => rfl
  | infinity negative => cases negative <;> rfl
  | finite negative significand exponent => rfl

theorem inTime_of_less {now start lifetime : Binary64} {p q : Rat} (hnow : now.toRat? = some p)
    (hstart : start.toRat? = some q)
    (h : less (add now (ofNat expiryBuffer)) (add start lifetime) = true) :
    InTime p q lifetime := by
  have hbuffer : (ofNat expiryBuffer).toRat? = some ((300 : Int) : Rat) := toRat?_ofInt (by decide)
  cases start with
  | nan => cases hstart
  | infinity negative => cases hstart
  | finite a s e =>
    cases lifetime with
    | nan =>
      have hend : add (.finite a s e) .nan = .nan := rfl
      simp [hend, not_less_nan] at h
    | infinity negative =>
      cases negative with
      | false => exact .inl rfl
      | true =>
        have hend : add (.finite a s e) (.infinity true) = .infinity true := rfl
        simp [hend, not_less_least] at h
    | finite b t f =>
      have hlifetime := toRat?_finite b t f
      refine .inr ⟨_, hlifetime, ?_⟩
      exact_mod_cast sum_lt_sum hnow hbuffer hstart hlifetime h

theorem InTime.exact {now start seconds : Rat} {lifetime : Binary64}
    (h : InTime now start lifetime) (hseconds : lifetime.toRat? = some seconds) :
    now + 300 < start + seconds := by
  rcases h with rfl | ⟨found, hfound, hlt⟩
  · cases hseconds
  · rwa [Option.some.inj (hseconds.symm.trans hfound)]

end Binary64

namespace Value

/-- Whether a value is this number, and one that a double holds exactly. -/
inductive Counts : Value → Rat → Prop
  | int (n : Int) (h : n.natAbs < 2 ^ 53) : Counts (.int n) n
  | float (x : Binary64) {q : Rat} (h : x.toRat? = some q) : Counts (.float x) q

variable {value : Value} {q : Rat}

theorem Counts.toFloat (h : Counts value q) : ∃ x, value.toFloat = .ok x ∧ x.toRat? = some q := by
  cases h with
  | int n hn =>
    have hvalue := Binary64.toRat?_ofInt hn
    exact ⟨Binary64.ofInt n, Binary64.ofIntChecked_ok hvalue, hvalue⟩
  | float x hx => exact ⟨x, rfl, hx⟩

theorem Counts.truthy (h : Counts value q) (hq : q ≠ 0) : value.truthy = true := by
  cases h with
  | int n hn =>
    have hn0 : n ≠ 0 := by exact_mod_cast hq
    simp [Value.truthy, hn0]
  | float x hx =>
    cases x with
    | nan => cases hx
    | infinity negative => cases hx
    | finite negative significand exponent =>
      cases significand with
      | zero =>
        rw [Binary64.toRat?_finite] at hx
        have hzero : Binary64.signed negative 0 = q := by simpa using hx
        cases negative <;> simp [Binary64.signed] at hzero <;> exact absurd hzero.symm hq
      | succ n => rfl

end Value

namespace TokenService

variable {start : TokenService} {calls : List TokenCall} {call : TokenCall} {sent : Request}

theorem cached_of_quiet {service : TokenService} (hsent : (service.authorize call).1 = .ok sent)
    (hquiet : (service.authorize call).2.endpoint.received = service.endpoint.received) :
    ∃ token, service.cache.lookup? call.auth.cacheKey = some token ∧
      token.isValid call.now = true ∧ sent = call.carrying token.access := by
  cases hcached : service.cached? call with
  | some token =>
    rw [authorize_of_cached hcached] at hsent
    rw [cached?, TokenCache.get_eq, Option.filter_eq_some_iff] at hcached
    exact ⟨token, hcached.1, hcached.2, (Except.ok.inj hsent).symm⟩
  | none =>
    cases hreceived : service.received? call with
    | some reception =>
      rw [authorize_of_received hreceived] at hquiet
      simp only [Endpoint.ask] at hquiet
      split at hquiet <;> simp at hquiet
    | none =>
      obtain ⟨fault, hfault, -⟩ := authorize_of_neither hcached hreceived
      rw [hfault] at hsent
      cases hsent

/-- A token is sent without asking for one only while its lifetime lasts, less the buffer. The
lifetime is the one that its answer declared, or the default if the answer declared none or one
that counts as absent. -/
theorem reused_in_time (hempty : start.cache = .empty)
    (hsent : ((start.after calls).authorize call).1 = .ok sent)
    (hquiet : ((start.after calls).authorize call).2.endpoint.received =
      (start.after calls).endpoint.received) :
    ∃ earlier giver reception later,
      start.trace calls = earlier ++ ⟨giver, some reception⟩ :: later ∧
      giver.auth.cacheKey = call.auth.cacheKey ∧
      (∀ use ∈ later, use.call.auth.cacheKey = call.auth.cacheKey → use.reception = none) ∧
      sent = call.carrying reception.access ∧
      reception.lifetime.InTime call.time giver.time ∧
      (reception.answer.declared.truthy = true →
        reception.answer.declared.toFloat = .ok reception.lifetime) ∧
      (reception.answer.declared.truthy = false → reception.lifetime = .ofInt 3600) ∧
      (∀ seconds, reception.answer.declared.Counts seconds → seconds ≠ 0 →
        call.time + 300 < giver.time + seconds) := by
  obtain ⟨token, hfound, hvalid, rfl⟩ := cached_of_quiet hsent hquiet
  obtain ⟨earlier, giver, reception, later, htrace, hkey, rfl, hlater⟩ :=
    remembers_after hempty calls _ token hfound
  have hmem : ⟨giver, some reception⟩ ∈ start.trace calls := by simp [htrace]
  obtain ⟨-, hread⟩ := trace_spec hmem rfl
  have htime : reception.lifetime.InTime call.time giver.time :=
    Binary64.inTime_of_less call.exact_time giver.exact_time hvalid
  refine ⟨earlier, giver, reception, later, htrace, hkey, hlater, rfl, htime,
    OAuth2Auth.readAnswer_declared hread, OAuth2Auth.readAnswer_default hread, ?_⟩
  intro seconds hcounts hseconds
  obtain ⟨x, hx, hexact⟩ := hcounts.toFloat
  have hsame := OAuth2Auth.readAnswer_declared hread (hcounts.truthy hseconds)
  rw [hx] at hsame
  obtain rfl := Except.ok.inj hsame
  exact htime.exact hexact

/-- A token for ten minutes, sent again a second before the last five of them. -/
theorem reused_in_time_once :
    let auth : OAuth2Auth := ⟨.text "http://auth.test/token", .text "client", .text "secret",
      .clientCredentials, [], .null, .null, .null, .null, .null, []⟩
    let answer : Answer := .response ⟨200, [],
      Utf8.encode "\x7b\"access_token\": \"tok-1\", \"expires_in\": 600\x7d"⟩
    let start : TokenService := ⟨.empty, ⟨[some answer], fun _ => .unfinished, []⟩, .ofInt 1000⟩
    let first : TokenCall :=
      ⟨auth, default, .ofInt 1000, (1000 : Int), Binary64.toRat?_ofInt (by decide)⟩
    let second : TokenCall :=
      ⟨auth, default, .ofInt 1299, (1299 : Int), Binary64.toRat?_ofInt (by decide)⟩
    start.cache = .empty ∧ ∃ sent, ((start.after [first]).authorize second).1 = .ok sent ∧
      ((start.after [first]).authorize second).2.endpoint.received =
        (start.after [first]).endpoint.received ∧
      answer.declared = .int 600 ∧ second.time + 300 < first.time + 600 := by
  intro auth answer start first second
  have hcached : ((start.after [first]).cached? second).isSome = true := by decide +kernel
  obtain ⟨token, hcached⟩ := Option.isSome_iff_exists.mp hcached
  have hmade := authorize_of_cached hcached
  have hsent : ((start.after [first]).authorize second).1 = .ok (second.carrying token.access) := by
    rw [hmade]
  have hquiet : ((start.after [first]).authorize second).2.endpoint.received =
      (start.after [first]).endpoint.received := by rw [hmade]
  have hdeclared : answer.declared = .int 600 := Value.eq_of_isInt (by decide +kernel)
  refine ⟨rfl, _, hsent, hquiet, hdeclared, ?_⟩
  obtain ⟨earlier, giver, reception, later, htrace, -, -, -, -, -, -, hseconds⟩ :=
    reused_in_time rfl hsent hquiet
  cases earlier with
  | nil =>
    obtain ⟨hgiver, hreception⟩ := TokenUse.mk.inj (List.cons.inj htrace).1
    have hanswer : answer = reception.answer := (received?_spec hreception).2.2.1
    rw [hgiver]
    have hcounts : reception.answer.declared.Counts ((600 : Int) : Rat) := by
      rw [← hanswer, hdeclared]
      exact .int 600 (by decide)
    exact_mod_cast hseconds _ hcounts (by decide)
  | cons use earlier => simp [trace] at htrace

theorem kept_for_an_hour {service : TokenService} {first second : TokenCall} {reception : Reception}
    (h : service.received? first = some reception)
    (hdeclared : reception.answer.declared.truthy = false)
    (hkey : second.auth.cacheKey = first.auth.cacheKey)
    (htime : (second.now.add (.ofNat expiryBuffer)).less
      (first.now.add (.ofInt OAuth2Auth.defaultLifetime)) = true) :
    (service.after [first]).cached? second =
      some ⟨reception.access, first.now.add (.ofInt OAuth2Auth.defaultLifetime), "Bearer"⟩ := by
  obtain ⟨-, -, -, hread⟩ := received?_spec h
  rw [cached?_after_received h hkey, OAuth2Auth.readAnswer_default hread hdeclared]
  exact Option.filter_eq_some_iff.mpr ⟨rfl, htime⟩

/-- A token whose answer declares that it lasts no time at all, sent again a second later. -/
theorem reused_past_zero :
    let auth : OAuth2Auth := ⟨.text "http://auth.test/token", .text "client", .text "secret",
      .clientCredentials, [], .null, .null, .null, .null, .null, []⟩
    let answer : Answer := .response ⟨200, [],
      Utf8.encode "\x7b\"access_token\": \"tok-1\", \"expires_in\": 0\x7d"⟩
    let start : TokenService := ⟨.empty, ⟨[some answer], fun _ => .unfinished, []⟩, .ofInt 1000⟩
    let first : TokenCall :=
      ⟨auth, default, .ofInt 1000, (1000 : Int), Binary64.toRat?_ofInt (by decide)⟩
    let second : TokenCall :=
      ⟨auth, default, .ofInt 1001, (1001 : Int), Binary64.toRat?_ofInt (by decide)⟩
    ∃ reception, start.received? first = some reception ∧ reception.answer.declared = .int 0 ∧
      ((start.after [first]).authorize second).1 = .ok (second.carrying reception.access) ∧
      ((start.after [first]).authorize second).2.endpoint.received =
        (start.after [first]).endpoint.received ∧
      ¬ second.time + 300 < first.time + 0 := by
  intro auth answer start first second
  have hreceived : (start.received? first).isSome = true := by decide +kernel
  obtain ⟨reception, hreceived⟩ := Option.isSome_iff_exists.mp hreceived
  have hanswer : answer = reception.answer := (received?_spec hreceived).2.2.1
  have hdeclared : answer.declared = .int 0 := Value.eq_of_isInt (by decide +kernel)
  rw [hanswer] at hdeclared
  have hzero : reception.answer.declared.truthy = false := by rw [hdeclared]; rfl
  have hcached : (start.after [first]).cached? second =
      some ⟨reception.access, first.now.add (.ofInt OAuth2Auth.defaultLifetime), "Bearer"⟩ :=
    kept_for_an_hour hreceived hzero rfl (by decide +kernel)
  refine ⟨reception, hreceived, hdeclared, ?_, ?_, ?_⟩
  · rw [authorize_of_cached hcached]
  · rw [authorize_of_cached hcached]
  · decide +kernel

end TokenService

end Rehearsal
