import Mathlib.Data.List.Induction
import Rehearsal.Proofs.Pool.Ledger

/-! What a pool holds and has released, told from what was asked of it. The shared producer and the
workers are each opened by the first call that is given one, and every later call is given the same;
closing the pool for the first time releases them. -/

namespace Rehearsal.Pool

abbrev Exchange := PoolCall × Except Fault (Option Nat)

/-- The shared producer that was given, with what the call asked for. -/
def sharedGiven? : Exchange → Option (ClientRole × Nat)
  | (.sharedProducer config _, .ok (some client)) => some (.producer config, client)
  | _ => none

def workersGiven? : Exchange → Option (ClientRole × Nat)
  | (.executor _, .ok (some client)) => some (.workers, client)
  | _ => none

/-- A client that is opened for the first who is given it, held until the pool is closed, and given
to everyone after that. -/
structure Once (given? : Exchange → Option (ClientRole × Nat)) (held : Option Nat)
    (history : List Exchange) (p : Pool) : Prop where
  held : p.isClosed = false → held = (history.findSome? given?).map (·.2)
  same : ∀ exchange ∈ history, ∀ role client, given? exchange = some (role, client) →
    ∃ first, history.findSome? given? = some (first, client)
  opened {role : ClientRole} {client : Nat} :
    history.findSome? given? = some (role, client) → p.roles[client]? = some role

theorem role_kept {p q : Pool} {client : Nat} {role : ClientRole} (h : p.roles <+: q.roles)
    (hrole : p.roles[client]? = some role) : q.roles[client]? = some role := by
  obtain ⟨more, hmore⟩ := h
  have hlt : client < p.roles.length := (List.getElem?_eq_some_iff.mp hrole).1
  rw [← hmore, List.getElem?_append_left hlt, hrole]

namespace Once

variable {given? : Exchange → Option (ClientRole × Nat)} {held kept : Option Nat}
  {history : List Exchange} {exchange : Exchange} {p q : Pool} {role : ClientRole} {client : Nat}

theorem findSome?_concat : (history ++ [exchange]).findSome? given? =
    (history.findSome? given?).or (given? exchange) := by
  rw [List.findSome?_append, List.findSome?_singleton]

theorem findSome?_other (hnone : given? exchange = none) :
    (history ++ [exchange]).findSome? given? = history.findSome? given? := by
  rw [findSome?_concat, hnone, Option.or_none]

theorem findSome?_again {first : ClientRole × Nat} (hfirst : history.findSome? given? = some first) :
    (history ++ [exchange]).findSome? given? = some first := by
  rw [findSome?_concat, hfirst, Option.some_or]

theorem none_given (h : Once given? held history p) (hopen : p.isClosed = false)
    (hnone : held = none) : history.findSome? given? = none :=
  Option.map_eq_none_iff.mp ((h.held hopen).symm.trans hnone)

theorem exists_given (h : Once given? held history p) (hopen : p.isClosed = false)
    (hheld : held = some client) : ∃ role, history.findSome? given? = some (role, client) := by
  obtain ⟨⟨role, other⟩, hfirst, rfl⟩ :=
    Option.map_eq_some_iff.mp ((h.held hopen).symm.trans hheld)
  exact ⟨role, hfirst⟩

theorem idle (h : Once given? held history p) (hnone : given? exchange = none)
    (hroles : p.roles <+: q.roles) (hopen : q.isClosed = false → p.isClosed = false ∧ kept = held) :
    Once given? kept (history ++ [exchange]) q where
  held hq := by
    obtain ⟨hp, rfl⟩ := hopen hq
    rw [findSome?_other hnone]
    exact h.held hp
  same other hmem role client hgiven := by
    rw [findSome?_other hnone]
    rcases List.mem_append.mp hmem with hold | hnew
    · exact h.same other hold role client hgiven
    · rw [List.mem_singleton.mp hnew, hnone] at hgiven
      cases hgiven
  opened hsome := by
    rw [findSome?_other hnone] at hsome
    exact role_kept hroles (h.opened hsome)

theorem again (h : Once given? held history p) (hgiven : given? exchange = some (role, client))
    (hopen : p.isClosed = false) (hheld : held = some client) :
    Once given? held (history ++ [exchange]) p := by
  obtain ⟨role₀, hfirst⟩ := h.exists_given hopen hheld
  have hagain : (history ++ [exchange]).findSome? given? = some (role₀, client) :=
    findSome?_again hfirst
  exact {
    held := fun hp => by
      rw [hagain, ← hfirst]
      exact h.held hp
    same := fun asked hmem role' client' hgiven' => by
      rcases List.mem_append.mp hmem with hold | hnew
      · obtain ⟨role'', hsame⟩ := h.same asked hold role' client' hgiven'
        rw [hfirst] at hsame
        cases hsame
        exact ⟨_, hagain⟩
      · rw [List.mem_singleton.mp hnew, hgiven] at hgiven'
        cases hgiven'
        exact ⟨_, hagain⟩
    opened := fun hsome => by
      rw [hagain, ← hfirst] at hsome
      exact h.opened hsome }

theorem first (h : Once given? held history p) (hopen : p.isClosed = false) (hheld : held = none)
    (hgiven : given? exchange = some (role, p.opened)) (hroles : q.roles = p.roles ++ [role]) :
    Once given? (some p.opened) (history ++ [exchange]) q := by
  have hnone := h.none_given hopen hheld
  have hfirst : (history ++ [exchange]).findSome? given? = some (role, p.opened) := by
    rw [findSome?_concat, hnone, hgiven, Option.none_or]
  exact {
    held := fun _ => by rw [hfirst, Option.map_some]
    same := fun other hmem role' client' hgiven' => by
      rcases List.mem_append.mp hmem with hold | hnew
      · obtain ⟨role'', hsame⟩ := h.same other hold role' client' hgiven'
        rw [hnone] at hsame
        cases hsame
      · rw [List.mem_singleton.mp hnew, hgiven] at hgiven'
        cases hgiven'
        exact ⟨_, hfirst⟩
    opened := fun hsome => by
      rw [hfirst] at hsome
      cases hsome
      rw [hroles, ← roles_length, List.getElem?_concat_length] }

end Once

/-- The number of the shared producer, from the first call that was given one. -/
def sharedFirst (history : List Exchange) : Option Nat :=
  (history.findSome? sharedGiven?).map (·.2)

/-- Every producer is the shared one or belongs to the call that it was opened for; only the shared
one is released, when the pool is closed. -/
structure Producers (history : List Exchange) (p : Pool) : Prop where
  own {config : ClientConfig} {failure : Option Fault} {client : Nat} :
    (.createProducer config failure, .ok (some client)) ∈ history →
      p.roles[client]? = some (.producer config) ∧ sharedFirst history ≠ some client
  producers {config : ClientConfig} {client : Nat} : p.roles[client]? = some (.producer config) →
    history.findSome? sharedGiven? = some (.producer config, client) ∨
      ∃ failure, (.createProducer config failure, .ok (some client)) ∈ history
  released {config : ClientConfig} {client : Nat} : p.roles[client]? = some (.producer config) →
    p.releases client = if p.isClosed ∧ sharedFirst history = some client
      then [.flushed client, .closed client] else []

variable {history : List Exchange} {exchange : Exchange} {call : PoolCall}
  {answer : Except Fault (Option Nat)} {role : ClientRole} {client : Nat} {p q : Pool}

theorem sharedFirst_concat (hnone : sharedGiven? exchange = none) :
    sharedFirst (history ++ [exchange]) = sharedFirst history := by
  rw [sharedFirst, Once.findSome?_other hnone, sharedFirst]

theorem Producers.idle (h : Producers history p)
    (hfirst : (history ++ [exchange]).findSome? sharedGiven? = history.findSome? sharedGiven?)
    (hown : ∀ config failure client, exchange ≠ (.createProducer config failure, .ok (some client)))
    (hroles : q.roles = p.roles) (hreleases : ∀ client config,
      p.roles[client]? = some (.producer config) → q.releases client =
        if q.isClosed ∧ sharedFirst history = some client then [.flushed client, .closed client]
        else []) :
    Producers (history ++ [exchange]) q where
  own {config failure client} hmem := by
    rw [hroles, sharedFirst, hfirst]
    rcases List.mem_append.mp hmem with hold | hnew
    · exact h.own hold
    · exact absurd (List.mem_singleton.mp hnew).symm (hown config failure client)
  producers hrole := by
    rw [hroles] at hrole
    rw [hfirst]
    rcases h.producers hrole with hshared | ⟨failure, hmem⟩
    · exact .inl hshared
    · exact .inr ⟨failure, List.mem_append_left _ hmem⟩
  released {config client} hrole := by
    rw [hroles] at hrole
    rw [sharedFirst, hfirst]
    exact hreleases client config hrole

theorem sharedFirst_given {opened : Nat}
    (h : sharedFirst (history ++ [(call, .ok (some opened))]) = some client) :
    sharedFirst history = some client ∨ client = opened := by
  rw [sharedFirst, Once.findSome?_concat] at h
  cases hfirst : history.findSome? sharedGiven? with
  | some first =>
    rw [hfirst, Option.some_or] at h
    exact .inl (by rw [sharedFirst, hfirst, h])
  | none =>
    rw [hfirst, Option.none_or] at h
    cases call with
    | sharedProducer config failure => exact .inr (Option.some.inj h).symm
    | _ => cases h

theorem Once.sharedFirst_lt (h : Once sharedGiven? p.shared history p)
    (hfirst : sharedFirst history = some client) : client < p.opened := by
  obtain ⟨⟨role, other⟩, hsome, rfl⟩ := Option.map_eq_some_iff.mp hfirst
  exact lt_opened (h.opened hsome)

theorem isClosed_opening (p : Pool) (call : PoolCall) (role : ClientRole) :
    (p.opening call role).isClosed = p.isClosed := by
  cases call <;> simp [opening, holding, readied, startLoop_eq, note]

theorem Producers.opening (h : Producers history p) (hs : Once sharedGiven? p.shared history p)
    (hc : Coherent p) (hwanted : call.wanted? = some (role, none)) (hfree : p.held? call = none)
    (hopen : p.isClosed = false) :
    Producers (history ++ [(call, .ok (some p.opened))]) (p.opening call role) where
  own hmem := by
    rw [role_opening]
    rcases List.mem_append.mp hmem with hold | hnew
    · obtain ⟨hrole, hother⟩ := h.own hold
      refine ⟨.inl hrole, fun hfirst => ?_⟩
      rcases sharedFirst_given hfirst with hshared | hnumber
      · exact hother hshared
      · exact absurd (lt_opened hrole) (by rw [hnumber]; exact Nat.lt_irrefl _)
    · cases List.mem_singleton.mp hnew
      cases hwanted
      refine ⟨.inr ⟨rfl, rfl⟩, fun hfirst => ?_⟩
      rw [sharedFirst_concat rfl] at hfirst
      exact absurd (hs.sharedFirst_lt hfirst) (Nat.lt_irrefl _)
  producers hrole := by
    rcases role_opening.mp hrole with hold | ⟨rfl, rfl⟩
    · rcases h.producers hold with hshared | ⟨failure, hmem⟩
      · exact .inl (Once.findSome?_again hshared)
      · exact .inr ⟨failure, List.mem_append_left _ hmem⟩
    · -- the producer just opened is the shared one or the call's own, as the call asks
      cases call with
      | sharedProducer other failure =>
        cases hwanted
        rw [Once.findSome?_concat, hs.none_given hopen hfree]
        exact .inl rfl
      | createProducer other failure =>
        cases hwanted
        exact .inr ⟨none, List.mem_append_right _ (List.mem_singleton.mpr rfl)⟩
      | _ => cases hwanted
  released {config client} hrole := by
    have hreleases : p.releases client = [] := by
      rcases role_opening.mp hrole with hold | ⟨rfl, -⟩
      · rw [h.released hold, hopen, if_neg (by simp)]
      · exact hc.unopened (Nat.le_refl _)
    rw [releases_opening, hreleases, isClosed_opening, hopen, if_neg (by simp)]

/-- Closing an open pool releases the shared producer, and no other. -/
theorem Producers.close (h : Producers history p) (hs : Once sharedGiven? p.shared history p)
    (hc : Coherent p) (hopen : p.isClosed = false) :
    Producers (history ++ [(.close, .ok none)]) p.close := by
  refine h.idle (Once.findSome?_other rfl) (by simp) p.roles_close ?_
  intro client config hrole
  have hclosed : p.close.isClosed = true := by rw [close_open hopen]
  rw [releases_close hc hopen, h.released hrole, hopen, if_neg (by simp),
    if_neg (hc.not_mem_webClients hrole (by simp)), if_neg (hc.workers_ne hrole (by simp)), hclosed,
    hs.held hopen, sharedFirst]
  simp

structure Accounted (history : List Exchange) (p : Pool) : Prop where
  coherent : Coherent p
  closed_iff : p.isClosed = true ↔ ∃ answer, (.close, answer) ∈ history
  shared : Once sharedGiven? p.shared history p
  workers : Once workersGiven? p.workers history p
  crew {client : Nat} : p.roles[client]? = some .workers →
    history.findSome? workersGiven? = some (.workers, client)
  producers : Producers history p

theorem Accounted.empty (hasBroker : Bool) : Accounted [] (Pool.empty hasBroker) where
  coherent := .empty hasBroker
  closed_iff := by simp [Pool.empty]
  shared := ⟨fun _ => rfl, by simp, by simp⟩
  workers := ⟨fun _ => rfl, by simp, by simp⟩
  crew := by simp [Pool.empty, roles]
  producers := ⟨by simp, by simp [Pool.empty, roles], by simp [Pool.empty, roles]⟩

theorem Coherent.open_of_held (h : Coherent p) (hheld : p.held? call = some client) :
    p.isClosed = false := by
  cases hclosed : p.isClosed with
  | false => rfl
  | true =>
    obtain ⟨hweb, hshared, hworkers, -⟩ := h.closed hclosed
    cases call <;> simp_all [held?, web?]

theorem Accounted.closed_concat (h : Accounted history p) (hclosed : q.isClosed = p.isClosed)
    (hother : exchange.1 ≠ .close) :
    q.isClosed = true ↔ ∃ answer, (.close, answer) ∈ history ++ [exchange] := by
  rw [hclosed, h.closed_iff]
  constructor
  · rintro ⟨answer, hmem⟩
    exact ⟨answer, List.mem_append_left _ hmem⟩
  · rintro ⟨answer, hmem⟩
    rcases List.mem_append.mp hmem with hold | hnew
    · exact ⟨answer, hold⟩
    · exact absurd (congrArg Prod.fst (List.mem_singleton.mp hnew)).symm hother

theorem Accounted.idle (h : Accounted history p) (hc : Coherent q) (hother : exchange.1 ≠ .close)
    (hgiven : ∀ client, exchange.2 ≠ .ok (some client)) (hclosed : q.isClosed = p.isClosed)
    (hshared : q.shared = p.shared) (hworkers : q.workers = p.workers) (hroles : q.roles = p.roles)
    (hreleases : ∀ client config, p.roles[client]? = some (.producer config) →
      q.releases client = p.releases client) :
    Accounted (history ++ [exchange]) q := by
  obtain ⟨call, answer⟩ := exchange
  have hnone : sharedGiven? (call, answer) = none ∧ workersGiven? (call, answer) = none := by
    rcases answer with fault | _ | client
    · cases call <;> exact ⟨rfl, rfl⟩
    · cases call <;> exact ⟨rfl, rfl⟩
    · exact absurd rfl (hgiven client)
  have hmono : p.roles <+: q.roles := hroles ▸ List.prefix_refl _
  exact {
    coherent := hc
    closed_iff := h.closed_concat hclosed hother
    shared := h.shared.idle hnone.1 hmono fun hq => ⟨hclosed ▸ hq, hshared⟩
    workers := h.workers.idle hnone.2 hmono fun hq => ⟨hclosed ▸ hq, hworkers⟩
    crew := fun hrole => Once.findSome?_again (h.crew (hroles ▸ hrole))
    producers := by
      refine h.producers.idle (Once.findSome?_other hnone.1) ?_ hroles ?_
      · rintro config failure client hsame
        exact hgiven client (congrArg Prod.snd hsame)
      · intro client config hrole
        rw [hreleases client config hrole, h.producers.released hrole, hclosed] }

theorem Accounted.held (h : Accounted history p) (hheld : p.held? call = some client) :
    Accounted (history ++ [(call, .ok (some client))]) p where
  coherent := h.coherent
  closed_iff := h.closed_concat rfl (by rintro rfl; cases hheld)
  shared := by
    cases call with
    | sharedProducer config failure =>
      exact h.shared.again rfl (h.coherent.open_of_held hheld) hheld
    | _ => exact h.shared.idle rfl (List.prefix_refl _) fun hq => ⟨hq, rfl⟩
  workers := by
    cases call with
    | executor failure => exact h.workers.again rfl (h.coherent.open_of_held hheld) hheld
    | _ => exact h.workers.idle rfl (List.prefix_refl _) fun hq => ⟨hq, rfl⟩
  crew hrole := Once.findSome?_again (h.crew hrole)
  producers := by
    refine h.producers.idle ?_ (by rintro config failure client ⟨⟩; cases hheld) rfl
      fun client config hrole => h.producers.released hrole
    cases call with
    | sharedProducer config failure =>
      obtain ⟨first, hfirst⟩ := h.shared.exists_given (h.coherent.open_of_held hheld) hheld
      rw [Once.findSome?_again hfirst, hfirst]
    | _ => exact Once.findSome?_other rfl

theorem Accounted.opening (h : Accounted history p) (hwanted : call.wanted? = some (role, none))
    (hfree : p.held? call = none) (hopen : p.isClosed = false) :
    Accounted (history ++ [(call, .ok (some p.opened))]) (p.opening call role) where
  coherent := h.coherent.opening hwanted hfree hopen
  closed_iff := h.closed_concat (p.isClosed_opening call role) (by rintro rfl; cases hwanted)
  shared := by
    cases call with
    | sharedProducer config failure =>
      cases hwanted
      exact h.shared.first hopen hfree rfl (p.roles_opening _ _)
    | httpClient certificate failure =>
      refine h.shared.idle rfl (p.roles_opening _ _ ▸ List.prefix_append _ _) fun _ => ⟨hopen, ?_⟩
      simp [Pool.opening, holding, readied, startLoop_eq, note]
    | _ => exact h.shared.idle rfl (p.roles_opening _ _ ▸ List.prefix_append _ _) fun _ =>
        ⟨hopen, rfl⟩
  workers := by
    cases call with
    | executor failure =>
      cases hwanted
      exact h.workers.first hopen hfree rfl (p.roles_opening _ _)
    | httpClient certificate failure =>
      refine h.workers.idle rfl (p.roles_opening _ _ ▸ List.prefix_append _ _) fun _ => ⟨hopen, ?_⟩
      simp [Pool.opening, holding, readied, startLoop_eq, note]
    | _ => exact h.workers.idle rfl (p.roles_opening _ _ ▸ List.prefix_append _ _) fun _ =>
        ⟨hopen, rfl⟩
  crew hrole := by
    rcases role_opening.mp hrole with hold | ⟨rfl, rfl⟩
    · exact Once.findSome?_again (h.crew hold)
    · cases call with
      | executor failure =>
        rw [Once.findSome?_concat, h.workers.none_given hopen hfree]
        rfl
      | _ => cases hwanted
  producers := h.producers.opening h.shared h.coherent hwanted hfree hopen

theorem Accounted.cleared (h : Accounted history p) :
    Accounted (history ++ [(.clearHttpClients, .ok none)]) p.clearHttpClients := by
  refine h.idle h.coherent.cleared (by simp) (by simp) rfl rfl rfl p.roles_cleared ?_
  intro client config hrole
  rw [releases_cleared h.coherent, if_neg (h.coherent.not_mem_webClients hrole (by simp)),
    List.append_nil]

theorem isClosed_close (p : Pool) : p.close.isClosed = true := by
  cases hopen : p.isClosed with
  | true => rwa [close_closed hopen]
  | false => rw [close_open hopen]

theorem Accounted.close (h : Accounted history p) :
    Accounted (history ++ [(.close, .ok none)]) p.close where
  coherent := h.coherent.close
  closed_iff := iff_of_true p.isClosed_close
    ⟨.ok none, List.mem_append_right _ (List.mem_singleton.mpr rfl)⟩
  shared := h.shared.idle rfl (p.roles_close ▸ List.prefix_refl _) fun hq =>
    absurd (p.isClosed_close.symm.trans hq) Bool.noConfusion
  workers := h.workers.idle rfl (p.roles_close ▸ List.prefix_refl _) fun hq =>
    absurd (p.isClosed_close.symm.trans hq) Bool.noConfusion
  crew hrole := Once.findSome?_again (h.crew (p.roles_close ▸ hrole))
  producers := by
    cases hopen : p.isClosed with
    | false => exact h.producers.close h.shared h.coherent hopen
    | true =>
      rw [close_closed hopen]
      exact h.producers.idle (Once.findSome?_other rfl) (by simp) rfl
        fun client config hrole => h.producers.released hrole

theorem Accounted.asked (h : Accounted history p) (hasked : Asked p call answer q) :
    Accounted (history ++ [(call, answer)]) q := by
  have hcoherent := h.coherent.asked hasked
  cases hasked with
  | held hheld => exact h.held hheld
  | refused hwanted _ _ =>
    exact h.idle hcoherent (by rintro rfl; cases hwanted) (by simp) rfl rfl rfl rfl fun _ _ _ => rfl
  | failed hwanted _ hadmitted =>
    obtain ⟨hclosed, -, hshared, hworkers, -⟩ := p.readied_holds call
    exact h.idle hcoherent (by rintro rfl; cases hwanted) (by simp) hclosed hshared hworkers
      (p.roles_readied call) fun client _ _ => p.releases_readied call client
  | opened hwanted hfree hadmitted => exact h.opening hwanted hfree (open_of_admitted hadmitted)
  | cleared => exact h.cleared
  | closed => exact h.close

theorem kept (hasBroker : Bool) (calls : List PoolCall) : Kept ((empty hasBroker).after calls) := by
  induction calls using List.reverseRecOn with
  | nil => exact ⟨rfl, .inl ⟨rfl, rfl⟩⟩
  | append_singleton calls call ih =>
    rw [after_concat]
    exact ih.asked (Pool.asked _ call)

/-- Whatever was asked of a pool, its history accounts for what became of its clients. -/
theorem accounted (hasBroker : Bool) (calls : List PoolCall) :
    Accounted ((empty hasBroker).history calls) ((empty hasBroker).after calls) := by
  induction calls using List.reverseRecOn with
  | nil => exact .empty hasBroker
  | append_singleton calls call ih =>
    rw [history_concat, after_concat]
    exact ih.asked (Pool.asked _ call)

end Rehearsal.Pool
