import Mathlib.Data.List.Find
import Rehearsal.Proofs.Pool.Accounts
import Rehearsal.Proofs.Value.Equality

/-! Shared clients are opened once and released once. An HTTP client is kept for its certificate
until it is closed; after that no call is given it again. Certificates are told apart by paths and
passwords, which are texts or left out; any scalars of JSON can be told apart in this way. -/

namespace Rehearsal

/-- What scalars of JSON are compared by: a text, or the number that they are exactly. -/
def Value.scalarKey : Value → String ⊕ Option ℚ
  | .text s => .inl s
  | v => .inr v.exactValue?

theorem Value.scalarKey_eq_number {v : Value} {p : ℚ} :
    v.scalarKey = .inr (some p) ↔ v.exactValue? = some p := by
  cases v with
  | text s => simp [scalarKey, exactValue?]
  | _ => simp [scalarKey]

theorem Value.same_iff_scalarKey {v w : Value} (hv : v.JsonLeaf) (hw : w.JsonLeaf) :
    v.same w = true ↔ v.scalarKey = w.scalarKey := by
  have hscalar : w.isScalar = true := by cases w <;> first | rfl | cases hw
  rcases hv.exact with rfl | ⟨s, rfl⟩ | ⟨p, hp⟩
  · rw [Value.same_null_iff]
    rcases hw.exact with rfl | ⟨t, rfl⟩ | ⟨q, hq⟩
    · simp
    · simp [scalarKey]
    · rw [scalarKey_eq_number.mpr hq]
      cases w <;> simp_all [scalarKey, exactValue?]
  · rw [Value.same_text_iff (.leaf hscalar hw)]
    cases w <;> simp [scalarKey, eq_comm]
  · rw [Value.same_number_iff hp, scalarKey_eq_number.mpr hp, eq_comm, @eq_comm _ _ w.scalarKey,
      scalarKey_eq_number, eq_comm]

namespace ClientCertificate

/-- Whether its paths and its password are scalars of JSON. -/
def Scalar (certificate : ClientCertificate) : Prop :=
  certificate.certPath.JsonLeaf ∧ certificate.keyPath.JsonLeaf ∧ certificate.password.JsonLeaf

/-- What certificates are told apart by. -/
def key (certificate : ClientCertificate) :
    (String ⊕ Option ℚ) × (String ⊕ Option ℚ) × (String ⊕ Option ℚ) :=
  (certificate.certPath.scalarKey, certificate.keyPath.scalarKey, certificate.password.scalarKey)

theorem same_iff_key {a b : ClientCertificate} (ha : a.Scalar) (hb : b.Scalar) :
    a.same b = true ↔ a.key = b.key := by
  obtain ⟨hpath, hkey, hpassword⟩ := ha
  obtain ⟨hpath', hkey', hpassword'⟩ := hb
  rw [same, Bool.and_eq_true, Bool.and_eq_true, Value.same_iff_scalarKey hpath hpath',
    Value.same_iff_scalarKey hkey hkey', Value.same_iff_scalarKey hpassword hpassword', key, key,
    Prod.mk.injEq, Prod.mk.injEq, and_assoc]

end ClientCertificate

namespace Pool

variable {p q : Pool} {history : List Exchange} {role : ClientRole} {call : PoolCall}
  {calls : List PoolCall} {answer : Except Fault (Option Nat)}
  {a b : Option ClientCertificate} {failure : Option Fault} {client : Nat}

theorem sameCertificate_iff (ha : ∀ certificate ∈ a, certificate.Scalar)
    (hb : ∀ certificate ∈ b, certificate.Scalar) :
    sameCertificate a b = true ↔ a.map ClientCertificate.key = b.map ClientCertificate.key := by
  cases a with
  | none => cases b <;> simp [sameCertificate]
  | some certificate =>
    cases b with
    | none => simp [sameCertificate]
    | some other =>
      rw [sameCertificate, ClientCertificate.same_iff_key (ha _ rfl) (hb _ rfl)]
      simp

theorem Asked.web_grows (h : Asked p call answer q) (hclear : call ≠ .clearHttpClients)
    (hclose : call ≠ .close) : p.web <+: q.web := by
  cases h with
  | held _ => exact List.prefix_refl _
  | refused _ _ _ => exact List.prefix_refl _
  | failed _ _ _ => exact (p.readied_holds call).2.1 ▸ List.prefix_refl _
  | opened _ _ _ =>
    cases call with
    | httpClient certificate failure =>
      refine ⟨[(certificate, p.opened)], ?_⟩
      simp [opening, holding, readied, startLoop_eq, note]
    | _ => exact List.prefix_refl _
  | cleared => exact absurd rfl hclear
  | closed => exact absurd rfl hclose

theorem web?_kept (h : p.web <+: q.web) (hweb : p.web? a = some client) :
    q.web? a = some client := by
  obtain ⟨more, hmore⟩ := h
  obtain ⟨entry, hentry, rfl⟩ := Option.map_eq_some_iff.mp hweb
  rw [web?, ← hmore, List.find?_append, hentry]
  rfl

theorem web?_after (hweb : p.web? a = some client) (hclear : .clearHttpClients ∉ calls)
    (hclose : .close ∉ calls) : (p.after calls).web? a = some client := by
  induction calls generalizing p with
  | nil => exact hweb
  | cons call calls ih =>
    simp only [List.mem_cons, not_or] at hclear hclose
    refine ih (web?_kept ((p.asked call).web_grows ?_ ?_) hweb) hclear.2 hclose.2
    · exact Ne.symm hclear.1
    · exact Ne.symm hclose.1

theorem Asked.web? (h : Asked p (.httpClient a failure) (.ok (some client)) q)
    (hself : sameCertificate a a = true) : q.web? a = some client := by
  cases h with
  | held hheld => exact hheld
  | opened hwanted hfree _ =>
    cases hwanted
    have hnone : p.web? a = none := hfree
    rw [Pool.web?, Option.map_eq_none_iff] at hnone
    simp [Pool.web?, opening, holding, readied, startLoop_eq, note, hnone, hself]

theorem Asked.gone (h : Asked p call answer q) (hlt : client < p.opened)
    (hout : client ∉ p.webClients) : client < q.opened ∧ client ∉ q.webClients := by
  cases h with
  | held _ => exact ⟨hlt, hout⟩
  | refused _ _ _ => exact ⟨hlt, hout⟩
  | failed _ _ _ =>
    rw [← roles_length, roles_readied, roles_length, webClients, (p.readied_holds call).2.1]
    exact ⟨hlt, hout⟩
  | @opened call role hwanted _ _ =>
    rw [← roles_length, roles_opening, List.length_append, roles_length]
    exact ⟨Nat.lt_add_right _ hlt, by rwa [mem_webClients_opening hwanted hlt]⟩
  | cleared =>
    rw [← roles_length, roles_cleared, roles_length]
    exact ⟨hlt, by simp⟩
  | closed =>
    rw [← roles_length, roles_close, roles_length]
    refine ⟨hlt, ?_⟩
    cases hopen : p.isClosed with
    | true => rwa [close_closed hopen]
    | false => simp [close_open hopen, webClients]

theorem gone_after (hlt : client < p.opened) (hout : client ∉ p.webClients) :
    client ∉ (p.after calls).webClients := by
  induction calls generalizing p with
  | nil => exact hout
  | cons call calls ih =>
    obtain ⟨hlt', hout'⟩ := (p.asked call).gone hlt hout
    exact ih hlt' hout'

theorem Asked.mem_web (h : Asked p call answer q) {entry : Option ClientCertificate × Nat}
    (hentry : entry ∈ q.web) : entry ∈ p.web ∨ ∃ failure, call = .httpClient entry.1 failure := by
  cases h with
  | held _ => exact .inl hentry
  | refused _ _ _ => exact .inl hentry
  | failed _ _ _ =>
    rw [(p.readied_holds call).2.1] at hentry
    exact .inl hentry
  | opened hwanted _ _ =>
    rcases (mem_web_opening hwanted).mp hentry with hmem | ⟨rfl, -⟩
    · exact .inl hmem
    · cases call with
      | httpClient certificate failure =>
        cases hwanted
        exact .inr ⟨none, rfl⟩
      | _ => cases hwanted
  | cleared => cases hentry
  | closed =>
    cases hopen : p.isClosed with
    | true =>
      rw [close_closed hopen] at hentry
      exact .inl hentry
    | false =>
      rw [close_open hopen] at hentry
      cases hentry

theorem web_asked (hasBroker : Bool) (calls : List PoolCall) :
    ∀ entry ∈ ((empty hasBroker).after calls).web,
      ∃ failure, .httpClient entry.1 failure ∈ calls := by
  induction calls using List.reverseRecOn with
  | nil => simp [after, empty]
  | append_singleton calls call ih =>
    intro entry hentry
    rw [after_concat] at hentry
    rcases (Pool.asked _ call).mem_web hentry with hold | ⟨failure, rfl⟩
    · obtain ⟨failure, hmem⟩ := ih entry hold
      exact ⟨failure, List.mem_append_left _ hmem⟩
    · exact ⟨failure, List.mem_append_right _ (List.mem_singleton.mpr rfl)⟩

theorem mem_history : (∃ answer, (call, answer) ∈ p.history calls) ↔ call ∈ calls := by
  induction calls generalizing p with
  | nil => simp [history]
  | cons first rest ih =>
    simp only [history, List.mem_cons, ← ih (p := (p.ask first).2), Prod.mk.injEq, exists_or]
    exact or_congr_left (by simp)

theorem history_split {earlier later : List Exchange}
    (h : p.history calls = earlier ++ (call, answer) :: later) :
    ∃ before behind, calls = before ++ call :: behind ∧ p.history before = earlier ∧
      ((p.after before).ask call).1 = answer ∧
      (p.after (before ++ [call])).history behind = later := by
  induction earlier generalizing p calls with
  | nil =>
    cases calls with
    | nil => cases h
    | cons first rest =>
      cases h
      exact ⟨[], rest, rfl, rfl, rfl, rfl⟩
  | cons exchange earlier ih =>
    cases calls with
    | nil => cases h
    | cons first rest =>
      obtain ⟨hhead, htail⟩ := List.cons.inj h
      obtain ⟨before, behind, rfl, hearlier, hanswer, hlater⟩ := ih htail
      exact ⟨first :: before, behind, rfl, by rw [history, hhead, hearlier], hanswer, hlater⟩

theorem after_append (p : Pool) (calls more : List PoolCall) :
    p.after (calls ++ more) = (p.after calls).after more := List.foldl_append

theorem Asked.roles_grow (h : Asked p call answer q) : p.roles <+: q.roles := by
  cases h with
  | held _ => exact List.prefix_refl _
  | refused _ _ _ => exact List.prefix_refl _
  | failed _ _ _ => exact p.roles_readied call ▸ List.prefix_refl _
  | opened _ _ _ =>
    rw [roles_opening]
    exact List.prefix_append _ _
  | cleared => exact p.roles_cleared ▸ List.prefix_refl _
  | closed => exact p.roles_close ▸ List.prefix_refl _

theorem opened_le_after (p : Pool) (calls : List PoolCall) : p.opened ≤ (p.after calls).opened := by
  induction calls generalizing p with
  | nil => exact Nat.le_refl _
  | cons call calls ih =>
    have hstep := (p.asked call).roles_grow.length_le
    rw [roles_length, roles_length] at hstep
    exact Nat.le_trans hstep (ih _)

theorem Coherent.open_of_given (h : Coherent p) (hasked : Asked p call (.ok (some client)) q) :
    p.isClosed = false := by
  cases hasked with
  | held hheld => exact h.open_of_held hheld
  | opened _ _ hadmitted => exact open_of_admitted hadmitted

theorem mem_of_web? (h : p.web? a = some client) :
    ∃ key, (key, client) ∈ p.web ∧ sameCertificate key a = true := by
  obtain ⟨entry, hfind, rfl⟩ := Option.map_eq_some_iff.mp h
  have hsame := List.find?_some hfind
  exact ⟨entry.1, List.mem_of_find?_eq_some hfind, hsame⟩

/-- A client that is in the pool is not given again once HTTP clients were closed. -/
theorem not_mem_after_clear (hc : Coherent p) (hmem : client ∈ p.webClients)
    (hclear : .clearHttpClients ∈ calls) : client ∉ (p.after calls).webClients := by
  obtain ⟨earlier, later, rfl⟩ := List.append_of_mem hclear
  have hlt : client < (p.after earlier).opened :=
    Nat.lt_of_lt_of_le (hc.web_lt hmem) (p.opened_le_after earlier)
  rw [List.append_cons, after_append, after_concat]
  refine gone_after ?_ (by simp [ask])
  rw [← roles_length, ask, roles_cleared, roles_length]
  exact hlt

theorem web?_given {hasBroker : Bool}
    (hgiven : (((empty hasBroker).after calls).ask (.httpClient a failure)).1 = .ok (some client))
    (hself : sameCertificate a a = true) :
    ((empty hasBroker).after (calls ++ [.httpClient a failure])).web? a = some client := by
  have hasked := ((empty hasBroker).after calls).asked (.httpClient a failure)
  rw [hgiven] at hasked
  rw [after_concat]
  exact hasked.web? hself

theorem mem_webClients_of_web? (h : p.web? a = some client) : client ∈ p.webClients := by
  obtain ⟨key, hmem, -⟩ := mem_of_web? h
  exact List.mem_map.mpr ⟨_, hmem, rfl⟩

theorem Coherent.web?_eq_iff (hc : Coherent p)
    (hkeys : ∀ entry ∈ p.web, ∀ certificate ∈ entry.1, certificate.Scalar)
    (ha : ∀ certificate ∈ a, certificate.Scalar) (hb : ∀ certificate ∈ b, certificate.Scalar)
    {other : Nat} (hweb : p.web? a = some client) (hweb' : p.web? b = some other) :
    client = other ↔ sameCertificate a b = true := by
  rw [sameCertificate_iff ha hb]
  constructor
  · rintro rfl
    obtain ⟨key, hmem, hsame⟩ := mem_of_web? hweb
    obtain ⟨key', hmem', hsame'⟩ := mem_of_web? hweb'
    cases List.inj_on_of_nodup_map hc.web_nodup hmem hmem' rfl
    rw [sameCertificate_iff (hkeys _ hmem) ha] at hsame
    rw [sameCertificate_iff (hkeys _ hmem) hb] at hsame'
    rw [← hsame, hsame']
  · intro hkey
    have hfind : p.web? a = p.web? b := by
      refine congrArg (Option.map Prod.snd) (List.find?_congr fun entry hentry => ?_)
      rw [Bool.eq_iff_iff, sameCertificate_iff (hkeys _ hentry) ha,
        sameCertificate_iff (hkeys _ hentry) hb, hkey]
    exact Option.some.inj (hweb.symm.trans (hfind.trans hweb'))

theorem close_not_asked {hasBroker : Bool}
    (hgiven : (((empty hasBroker).after calls).ask call).1 = .ok (some client)) :
    .close ∉ calls := by
  intro hmem
  have hacc := accounted hasBroker calls
  have hasked := ((empty hasBroker).after calls).asked call
  rw [hgiven] at hasked
  have hclosed := hacc.closed_iff.mpr (mem_history.mpr hmem)
  rw [hacc.coherent.open_of_given hasked] at hclosed
  cases hclosed

/-- Two calls are given the same client exactly if they name the same certificate and no HTTP client
was closed between them. -/
theorem given_same_iff {hasBroker : Bool} (hscalar : ∀ certificate failure,
      .httpClient (some certificate) failure ∈ calls → certificate.Scalar)
    {before middle later : List Exchange} {failure' : Option Fault} {other : Nat}
    (h : (empty hasBroker).history calls = before ++ (.httpClient a failure, .ok (some client)) ::
      (middle ++ (.httpClient b failure', .ok (some other)) :: later)) :
    client = other ↔
      sameCertificate a b = true ∧ ∀ answer, (.clearHttpClients, answer) ∉ middle := by
  obtain ⟨earlier, behind, rfl, -, hgiven, hrest⟩ := history_split h
  obtain ⟨between, last, rfl, rfl, hgiven', -⟩ := history_split hrest
  rw [← after_append] at hgiven'
  let first := earlier ++ [PoolCall.httpClient a failure]
  let second := first ++ between ++ [PoolCall.httpClient b failure']
  have hasked : ∀ call ∈ second,
      call ∈ earlier ++ .httpClient a failure :: (between ++ .httpClient b failure' :: last) := by
    intro call hmem
    simp only [second, first, List.mem_append, List.mem_cons, List.not_mem_nil] at hmem ⊢
    tauto
  have ha : ∀ certificate ∈ a, certificate.Scalar := by
    rintro certificate rfl
    exact hscalar certificate failure (hasked _ (by simp [second, first]))
  have hb : ∀ certificate ∈ b, certificate.Scalar := by
    rintro certificate rfl
    exact hscalar certificate failure' (hasked _ (by simp [second]))
  have hweb : ((empty hasBroker).after first).web? a = some client :=
    web?_given hgiven ((sameCertificate_iff ha ha).mpr rfl)
  have hweb' : ((empty hasBroker).after second).web? b = some other :=
    web?_given hgiven' ((sameCertificate_iff hb hb).mpr rfl)
  have hsplit : (empty hasBroker).after second =
      ((empty hasBroker).after first).after (between ++ [.httpClient b failure']) := by
    rw [← after_append, ← List.append_assoc]
  -- a client that was closed in between is gone; one that was not is what `b` would find as well
  by_cases hclear : .clearHttpClients ∈ between
  · obtain ⟨answer, hanswer⟩ := mem_history.mpr hclear
    refine iff_of_false ?_ fun hno => hno.2 answer hanswer
    rintro rfl
    have hgone := not_mem_after_clear (accounted hasBroker first).coherent
      (mem_webClients_of_web? hweb) (List.mem_append_left [.httpClient b failure'] hclear)
    rw [← hsplit] at hgone
    exact hgone (mem_webClients_of_web? hweb')
  · have hclose : .close ∉ between := fun hmem =>
      close_not_asked hgiven' (List.mem_append_right _ hmem)
    have hkept : ((empty hasBroker).after second).web? a = some client := by
      rw [hsplit]
      exact web?_after hweb (by simpa using hclear) (by simpa using hclose)
    have hkeys : ∀ entry ∈ ((empty hasBroker).after second).web,
        ∀ certificate ∈ entry.1, certificate.Scalar := by
      intro entry hentry certificate hsome
      obtain ⟨failure, hmem⟩ := web_asked hasBroker second entry hentry
      rw [Option.mem_def.mp hsome] at hmem
      exact hscalar certificate failure (hasked _ hmem)
    have hnone : ∀ answer, (.clearHttpClients, answer) ∉
        ((empty hasBroker).after first).history between :=
      fun answer hmem => hclear (mem_history.mp ⟨answer, hmem⟩)
    rw [and_iff_left hnone]
    exact (accounted hasBroker second).coherent.web?_eq_iff hkeys ha hb hkept hweb'

theorem Coherent.asked_closed (hc : Coherent p) (hclosed : p.isClosed = true)
    (h : Asked p call answer q) : q = p ∧
      answer = if call.wanted?.isSome then .error (.configuration .poolClosed) else .ok none := by
  cases h with
  | held hheld =>
    rw [hc.open_of_held hheld] at hclosed
    cases hclosed
  | refused hwanted _ hrefusal =>
    rw [refusal?, hclosed, if_pos rfl] at hrefusal
    cases hrefusal
    exact ⟨rfl, by rw [if_pos hwanted]⟩
  | failed _ _ hadmitted =>
    rw [open_of_admitted hadmitted] at hclosed
    cases hclosed
  | opened _ _ hadmitted =>
    rw [open_of_admitted hadmitted] at hclosed
    cases hclosed
  | cleared =>
    have hweb := (hc.closed hclosed).1
    refine ⟨?_, rfl⟩
    rw [clearHttpClients, hweb, List.map_nil, List.append_nil, ← hweb]
  | closed => exact ⟨close_closed hclosed, rfl⟩

theorem Asked.of_error {fault : Fault} (h : Asked p call (.error fault) q) :
    q = p ∨ q = p.startLoop := by
  cases h with
  | refused _ _ _ => exact .inl rfl
  | failed _ _ _ => exact p.readied_cases call

theorem producer_of_given {exchange : Exchange} (h : sharedGiven? exchange = some (role, client)) :
    ∃ config, role = .producer config := by
  obtain ⟨call, answer⟩ := exchange
  rcases answer with fault | _ | given
  · cases call <;> cases h
  · cases call <;> cases h
  · cases call with
    | sharedProducer config failure =>
      cases h
      exact ⟨config, rfl⟩
    | _ => cases h

theorem executor_of_given {exchange : Exchange} (h : workersGiven? exchange = some (role, client)) :
    role = .workers ∧ ∃ failure, exchange = (.executor failure, .ok (some client)) := by
  obtain ⟨call, answer⟩ := exchange
  rcases answer with fault | _ | given
  · cases call <;> cases h
  · cases call <;> cases h
  · cases call with
    | executor failure =>
      cases h
      exact ⟨rfl, failure, rfl⟩
    | _ => cases h

theorem Accounted.shared_released (h : Accounted history p) (hfirst :
    history.findSome? sharedGiven? = some (role, client)) :
    p.releases client = if p.isClosed then [.flushed client, .closed client] else [] := by
  obtain ⟨exchange, -, hgiven⟩ := List.exists_of_findSome?_eq_some hfirst
  obtain ⟨config, rfl⟩ := producer_of_given hgiven
  rw [h.producers.released (h.shared.opened hfirst), sharedFirst, hfirst]
  simp

theorem Accounted.shared_same (h : Accounted history p) {config : ClientConfig} {other : Nat}
    (hfirst : history.findSome? sharedGiven? = some (role, client))
    (hmem : (.sharedProducer config failure, .ok (some other)) ∈ history) : other = client := by
  obtain ⟨first, hsame⟩ := h.shared.same _ hmem _ other rfl
  rw [hfirst] at hsame
  cases hsame
  rfl

theorem Accounted.own_released (h : Accounted history p) {config : ClientConfig}
    (hmem : (.createProducer config failure, .ok (some client)) ∈ history) :
    p.releases client = [] := by
  obtain ⟨hrole, hother⟩ := h.producers.own hmem
  rw [h.producers.released hrole, if_neg fun hno => hother hno.2]

theorem Accounted.workers_iff (h : Accounted history p) :
    p.roles[client]? = some .workers ↔
      ∃ failure, (.executor failure, .ok (some client)) ∈ history := by
  constructor
  · intro hrole
    obtain ⟨⟨call, answer⟩, hmem, hgiven⟩ := List.exists_of_findSome?_eq_some (h.crew hrole)
    obtain ⟨-, failure, hexchange⟩ := executor_of_given hgiven
    exact ⟨failure, hexchange ▸ hmem⟩
  · rintro ⟨failure, hmem⟩
    obtain ⟨role, hfirst⟩ := h.workers.same _ hmem _ client rfl
    obtain ⟨exchange, -, hgiven⟩ := List.exists_of_findSome?_eq_some hfirst
    rw [← (executor_of_given hgiven).1]
    exact h.workers.opened hfirst

theorem Accounted.workers_released (h : Accounted history p)
    (hrole : p.roles[client]? = some .workers) :
    p.releases client = if p.isClosed then [.closed client] else [] := by
  rw [h.coherent.workers_released hrole]
  cases hclosed : p.isClosed with
  | true =>
    rw [(h.coherent.closed hclosed).2.2.1, if_neg (by simp), if_pos rfl]
  | false =>
    rw [h.workers.held hclosed, h.crew hrole]
    simp

theorem Coherent.web_kept_or_closed (h : Coherent p) {certificate : Option ClientCertificate}
    (hrole : p.roles[client]? = some (.http certificate)) :
    (client ∈ p.webClients ∧ p.releases client = []) ∨
      (client ∉ p.webClients ∧ p.releases client = [.closed client]) := by
  rw [h.web_released hrole]
  by_cases hmem : client ∈ p.webClients
  · exact .inl ⟨hmem, if_pos hmem⟩
  · exact .inr ⟨hmem, if_neg hmem⟩

/-- Whatever is asked of a pool. Calls for HTTP clients are given the same client exactly if they
name the same certificate and the clients were not closed in between; every HTTP client that was
opened is in the pool, unreleased, or was closed once. All who are given the shared producer are
given the one that the first of them had opened with its configuration, and every other producer was
opened for a call of its own; the shared one is flushed and closed by the first close, and no other
is released. The workers are opened and closed in the same way, and the loop is started and stopped
so. A call that fails leaves nothing behind but the loop; once the pool is closed, whoever asks for
a client is refused, and nothing changes any more. -/
theorem shared_once (hasBroker : Bool) (calls : List PoolCall)
    (hscalar : ∀ certificate failure,
      .httpClient (some certificate) failure ∈ calls → certificate.Scalar) :
    let p := (empty hasBroker).after calls
    let history := (empty hasBroker).history calls
    p.numbers = List.range p.opened ∧
    (∀ before middle later a b failure failure' client other,
      history = before ++ (.httpClient a failure, .ok (some client)) ::
        (middle ++ (.httpClient b failure', .ok (some other)) :: later) →
      (client = other ↔
        sameCertificate a b = true ∧ ∀ answer, (.clearHttpClients, answer) ∉ middle)) ∧
    (∀ client certificate, .opened client (.http certificate) ∈ p.log →
      (client ∈ p.webClients ∧ p.releases client = []) ∨
        (client ∉ p.webClients ∧ p.releases client = [.closed client])) ∧
    (∀ role client, history.findSome? sharedGiven? = some (role, client) →
      .opened client role ∈ p.log ∧
      (∀ config failure other,
        (.sharedProducer config failure, .ok (some other)) ∈ history → other = client) ∧
      p.releases client = if p.isClosed then [.flushed client, .closed client] else []) ∧
    (∀ client config, .opened client (.producer config) ∈ p.log →
      history.findSome? sharedGiven? = some (.producer config, client) ∨
        ((∃ failure, (.createProducer config failure, .ok (some client)) ∈ history) ∧
          p.releases client = [])) ∧
    (∀ client, (.opened client .workers ∈ p.log ↔
        ∃ failure, (.executor failure, .ok (some client)) ∈ history) ∧
      (.opened client .workers ∈ p.log →
        (∀ other, .opened other .workers ∈ p.log → other = client) ∧
        p.releases client = if p.isClosed then [.closed client] else [])) ∧
    (p.loopEvents = [] ∨
      p.loopEvents = .loopStarted :: if p.isClosed then [.loopStopped] else []) ∧
    (p.isClosed = true ↔ .close ∈ calls) ∧
    ∀ call,
      (∀ fault, (p.ask call).1 = .error fault → (p.ask call).2 = p ∨ (p.ask call).2 = p.startLoop) ∧
      (p.isClosed = true → p.ask call =
        (if call.wanted?.isSome then .error (.configuration .poolClosed) else .ok none, p)) := by
  intro p history
  have hacc : Accounted history p := accounted hasBroker calls
  have hkept : Kept p := kept hasBroker calls
  have hopened : ∀ {client role}, .opened client role ∈ p.log ↔ p.roles[client]? = some role :=
    hacc.coherent.numbered
  refine ⟨hkept.numbers, ?_, ?_, ?_, ?_, ?_, ?_, ?_, ?_⟩
  · intro before middle later a b failure failure' client other h
    exact given_same_iff hscalar h
  · intro client certificate hmem
    exact hacc.coherent.web_kept_or_closed (hopened.mp hmem)
  · intro role client hfirst
    exact ⟨hopened.mpr (hacc.shared.opened hfirst), fun config failure other =>
      hacc.shared_same hfirst, hacc.shared_released hfirst⟩
  · intro client config hmem
    rcases hacc.producers.producers (hopened.mp hmem) with hfirst | ⟨failure, hown⟩
    · exact .inl hfirst
    · exact .inr ⟨⟨failure, hown⟩, hacc.own_released hown⟩
  · intro client
    rw [hopened]
    refine ⟨hacc.workers_iff, fun hrole => ⟨?_, hacc.workers_released hrole⟩⟩
    intro other hother
    cases (hacc.crew hrole).symm.trans (hacc.crew (hopened.mp hother))
    rfl
  · rcases hkept.loop with ⟨-, hnil⟩ | ⟨-, hstarted⟩
    · exact .inl hnil
    · exact .inr hstarted
  · rw [hacc.closed_iff]
    exact mem_history
  · intro call
    have hasked := p.asked call
    refine ⟨fun fault herror => ?_, fun hclosed => ?_⟩
    · rw [herror] at hasked
      exact hasked.of_error
    · obtain ⟨hsame, hanswer⟩ := hacc.coherent.asked_closed hclosed hasked
      exact Prod.ext hanswer hsame

/-- A shared producer that cannot be opened at first, and HTTP clients that are closed early. -/
theorem shared_once_cleared :
    let certificate : ClientCertificate := ⟨.text "client.pem", .text "client.key", .null⟩
    let config : ClientConfig := [("bootstrap.servers", .text "one:9092")]
    let calls : List PoolCall :=
      [.httpClient none none, .httpClient (some certificate) none,
        .sharedProducer [] (some (.raised .runtime "unreachable")), .sharedProducer config none,
        .clearHttpClients, .httpClient (some certificate) none, .sharedProducer [] none, .close,
        .close]
    let p := (empty true).after calls
    (∀ certificate failure,
      .httpClient (some certificate) failure ∈ calls → certificate.Scalar) ∧
    p.numbers = List.range 4 ∧ p.releases 1 = [.closed 1] ∧
    .opened 2 (.producer config) ∈ p.log ∧ p.releases 2 = [.flushed 2, .closed 2] ∧
    p.releases 3 = [.closed 3] ∧
    p.ask (.executor none) = (.error (.configuration .poolClosed), p) := by
  intro certificate config calls p
  have hscalar : ∀ certificate failure,
      .httpClient (some certificate) failure ∈ calls → certificate.Scalar := by
    intro other failure hmem
    simp only [calls, List.mem_cons, PoolCall.httpClient.injEq, Option.some.injEq, reduceCtorEq,
      List.not_mem_nil, or_false, false_or, false_and] at hmem
    rcases hmem with ⟨rfl, -⟩ | ⟨rfl, -⟩ <;> exact ⟨trivial, trivial, trivial⟩
  have hp : p = ⟨true, true, false, [], none, none, [.loopStarted, .opened 0 (.http none),
      .opened 1 (.http (some certificate)), .opened 2 (.producer config), .closed 0, .closed 1,
      .opened 3 (.http (some certificate)), .flushed 2, .closed 2, .closed 3, .loopStopped]⟩ := by
    simp [p, calls, after, ask, empty, httpClient, web?, sameCertificate, checkOpen, checkBroker,
      openClient, startLoop, note, opened, isOpening, sharedProducer, clearHttpClients, close,
      dispose, Except.bind, List.countP_cons]
  have hfirst : ((empty true).history calls).findSome? sharedGiven? =
      some (.producer config, 2) := by
    simp [calls, history, ask, empty, httpClient, web?, sameCertificate, checkOpen, checkBroker,
      openClient, startLoop, note, opened, isOpening, sharedProducer, clearHttpClients, Except.bind,
      List.countP_cons, Except.map, List.findSome?_cons, sharedGiven?]
  obtain ⟨hnumbers, -, hweb, hshared, -, -, -, -, hnext⟩ := shared_once true calls hscalar
  obtain ⟨hopened, -, hreleases⟩ := hshared _ 2 hfirst
  have hclosed : ∀ client, .opened client (.http (some certificate)) ∈ p.log →
      p.releases client = [.closed client] := by
    intro client hmem
    rcases hweb client _ hmem with ⟨hin, -⟩ | ⟨-, hreleases⟩
    · have hnone : p.webClients = [] := by rw [hp]; rfl
      rw [hnone] at hin
      cases hin
    · exact hreleases
  have hisClosed : p.isClosed = true := by rw [hp]
  have hcount : p.opened = 4 := by rw [hp]; rfl
  refine ⟨hscalar, ?_, hclosed 1 ?_, hopened, ?_, hclosed 3 ?_,
    (hnext (.executor none)).2 hisClosed⟩
  · rw [← hcount]
    exact hnumbers
  · simp [hp]
  · rw [hreleases, if_pos hisClosed]
  · simp [hp]

end Pool

end Rehearsal
