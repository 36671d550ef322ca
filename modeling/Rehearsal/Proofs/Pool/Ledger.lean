import Mathlib.Data.List.Nodup
import Rehearsal.Proofs.Pool.Calls

/-! What became of every client that a pool opened. A client is numbered by its place among the
openings, so what it is for never changes. What the pool holds was not released; an HTTP client or
the workers that it no longer holds were closed once. One call keeps this, whatever it is. -/

namespace Rehearsal

namespace ClientEvent

def released? : ClientEvent → Option Nat
  | .flushed client => some client
  | .closed client => some client
  | _ => none

def role? : ClientEvent → Option ClientRole
  | .opened _ role => some role
  | _ => none

def number? : ClientEvent → Option Nat
  | .opened client _ => some client
  | _ => none

/-- Whether an event is about the loop that HTTP clients share. -/
def ofLoop : ClientEvent → Bool
  | .loopStarted => true
  | .loopStopped => true
  | _ => false

@[simp]
theorem ofLoop_flushed (client : Nat) : (flushed client).ofLoop = false := rfl

@[simp]
theorem ofLoop_closed (client : Nat) : (closed client).ofLoop = false := rfl

@[simp]
theorem ofLoop_stopped : loopStopped.ofLoop = true := rfl

theorem number?_eq_none {event : ClientEvent} (h : event.role? = none) : event.number? = none := by
  cases event with
  | opened client role => cases h
  | _ => rfl

end ClientEvent

namespace Pool

/-- How a client was released, in order. -/
def releases (p : Pool) (client : Nat) : List ClientEvent :=
  p.log.filter fun event => event.released? == some client

def roles (p : Pool) : List ClientRole := p.log.filterMap ClientEvent.role?

def webClients (p : Pool) : List Nat := p.web.map (·.2)

structure Coherent (p : Pool) : Prop where
  numbered {client : Nat} {role : ClientRole} :
    .opened client role ∈ p.log ↔ p.roles[client]? = some role
  unopened {client : Nat} : p.opened ≤ client → p.releases client = []
  web_opened : ∀ entry ∈ p.web, p.roles[entry.2]? = some (.http entry.1)
  web_nodup : p.webClients.Nodup
  shared_opened {client : Nat} : p.shared = some client →
    ∃ config, p.roles[client]? = some (.producer config)
  workers_opened {client : Nat} : p.workers = some client → p.roles[client]? = some .workers
  web_released {client : Nat} {certificate : Option ClientCertificate} :
    p.roles[client]? = some (.http certificate) →
      p.releases client = if client ∈ p.webClients then [] else [.closed client]
  workers_released {client : Nat} : p.roles[client]? = some .workers →
    p.releases client = if p.workers = some client then [] else [.closed client]
  closed : p.isClosed = true → p.web = [] ∧ p.shared = none ∧ p.workers = none ∧ p.loop = false

variable {p q : Pool} {call : PoolCall} {answer : Except Fault (Option Nat)} {role : ClientRole}
  {client : Nat}

theorem roles_length (p : Pool) : p.roles.length = p.opened := by
  rw [roles, opened, List.countP_eq_length_filter, List.length_filterMap_eq_countP,
    List.countP_eq_length_filter]
  congr 2
  funext event
  cases event <;> rfl

theorem roles_startLoop (p : Pool) : p.startLoop.roles = p.roles := by
  rw [roles, startLoop_eq, List.filterMap_append]
  split <;> simp [roles, ClientEvent.role?]

theorem releases_startLoop (p : Pool) (client : Nat) :
    p.startLoop.releases client = p.releases client := by
  rw [releases, startLoop_eq, List.filter_append]
  split <;> simp [releases, ClientEvent.released?]

theorem Coherent.empty (hasBroker : Bool) : Coherent (Pool.empty hasBroker) where
  numbered := by simp [Pool.empty, roles]
  unopened := fun _ => rfl
  web_opened := by simp [Pool.empty]
  web_nodup := by simp [Pool.empty, webClients]
  shared_opened := by simp [Pool.empty]
  workers_opened := by simp [Pool.empty]
  web_released := by simp [Pool.empty, roles]
  workers_released := by simp [Pool.empty, roles]
  closed := by simp [Pool.empty]

theorem opening_log (p : Pool) (call : PoolCall) (role : ClientRole) :
    (p.opening call role).log = (p.readied call).log ++ [.opened p.opened role] := by
  cases call <;> rfl

theorem readied_cases (p : Pool) (call : PoolCall) :
    p.readied call = p ∨ p.readied call = p.startLoop := by
  cases call <;> simp [readied]

theorem readied_holds (p : Pool) (call : PoolCall) :
    (p.readied call).isClosed = p.isClosed ∧ (p.readied call).web = p.web ∧
      (p.readied call).shared = p.shared ∧ (p.readied call).workers = p.workers ∧
      (p.readied call).hasBroker = p.hasBroker := by
  rcases p.readied_cases call with h | h
  · simp [h]
  · simp [h, startLoop_eq]

theorem roles_readied (p : Pool) (call : PoolCall) : (p.readied call).roles = p.roles := by
  rcases p.readied_cases call with h | h
  · rw [h]
  · rw [h, roles_startLoop]

theorem releases_readied (p : Pool) (call : PoolCall) (client : Nat) :
    (p.readied call).releases client = p.releases client := by
  rcases p.readied_cases call with h | h
  · rw [h]
  · rw [h, releases_startLoop]

theorem roles_opening (p : Pool) (call : PoolCall) (role : ClientRole) :
    (p.opening call role).roles = p.roles ++ [role] := by
  rw [← p.roles_readied call, roles, opening_log, List.filterMap_append]
  rfl

theorem releases_opening (p : Pool) (call : PoolCall) (role : ClientRole) (client : Nat) :
    (p.opening call role).releases client = p.releases client := by
  rw [← p.releases_readied call, releases, opening_log, List.filter_append, releases]
  simp [ClientEvent.released?]

theorem mem_startLoop_log :
    .opened client role ∈ p.startLoop.log ↔ .opened client role ∈ p.log := by
  rw [startLoop_eq, List.mem_append]
  split <;> simp

theorem Coherent.startLoop (h : Coherent p) (hopen : p.isClosed = false) :
    Coherent p.startLoop where
  numbered {client role} := by
    rw [mem_startLoop_log, roles_startLoop]
    exact h.numbered
  unopened hle := by
    rw [opened_startLoop] at hle
    rw [releases_startLoop, h.unopened hle]
  web_opened := by
    rw [roles_startLoop, startLoop_eq]
    exact h.web_opened
  web_nodup := by
    rw [startLoop_eq]
    exact h.web_nodup
  shared_opened := by
    rw [roles_startLoop, startLoop_eq]
    exact h.shared_opened
  workers_opened := by
    rw [roles_startLoop, startLoop_eq]
    exact h.workers_opened
  web_released {client certificate} := by
    rw [roles_startLoop, releases_startLoop, startLoop_eq]
    exact h.web_released
  workers_released {client} := by
    rw [roles_startLoop, releases_startLoop, startLoop_eq]
    exact h.workers_released
  closed hclosed := by
    rw [startLoop_eq, hopen] at hclosed
    cases hclosed

theorem Coherent.readied (h : Coherent p) (call : PoolCall) (hopen : p.isClosed = false) :
    Coherent (p.readied call) := by
  rcases p.readied_cases call with hr | hr
  · rwa [hr]
  · rw [hr]
    exact h.startLoop hopen

theorem role_opening {other : ClientRole} :
    (p.opening call role).roles[client]? = some other ↔
      p.roles[client]? = some other ∨ (client = p.opened ∧ other = role) := by
  rw [roles_opening, ← roles_length]
  rcases Nat.lt_trichotomy client p.roles.length with hlt | rfl | hgt
  · rw [List.getElem?_append_left hlt]
    simp [Nat.ne_of_lt hlt]
  · simp [eq_comm]
  · rw [List.getElem?_eq_none (by simp; omega), List.getElem?_eq_none (by omega)]
    simp [Nat.ne_of_gt hgt]

theorem mem_web_opening (hwanted : call.wanted? = some (role, none))
    {entry : Option ClientCertificate × Nat} :
    entry ∈ (p.opening call role).web ↔
      entry ∈ p.web ∨ (role = .http entry.1 ∧ entry.2 = p.opened) := by
  cases call <;> cases hwanted <;>
    simp [opening, holding, readied, startLoop_eq, note, Prod.ext_iff, @eq_comm _ entry.1]

theorem webClients_opening (hwanted : call.wanted? = some (role, none)) :
    (p.opening call role).webClients = p.webClients ∨
      (p.opening call role).webClients = p.webClients ++ [p.opened] := by
  cases call <;> cases hwanted <;>
    simp [opening, holding, readied, startLoop_eq, note, webClients]

theorem shared_opening (hwanted : call.wanted? = some (role, none))
    (hshared : (p.opening call role).shared = some client) :
    p.shared = some client ∨ (client = p.opened ∧ ∃ config, role = .producer config) := by
  cases call <;> cases hwanted <;>
    simp_all [opening, holding, readied, startLoop_eq, note]

theorem workers_opening (hwanted : call.wanted? = some (role, none)) (hfree : p.held? call = none) :
    (p.opening call role).workers = some client ↔
      p.workers = some client ∨ (p.opened = client ∧ role = .workers) := by
  cases call <;> cases hwanted <;>
    simp_all [opening, holding, readied, startLoop_eq, note, held?]

theorem lt_opened (hrole : p.roles[client]? = some role) : client < p.opened := by
  rw [← roles_length]
  exact (List.getElem?_eq_some_iff.mp hrole).1

theorem Coherent.web_lt (h : Coherent p) (hmem : client ∈ p.webClients) : client < p.opened := by
  obtain ⟨entry, hentry, rfl⟩ := List.mem_map.mp hmem
  exact lt_opened (h.web_opened entry hentry)

theorem mem_webClients_opening (hwanted : call.wanted? = some (role, none))
    (hold : client < p.opened) :
    client ∈ (p.opening call role).webClients ↔ client ∈ p.webClients := by
  rcases webClients_opening (p := p) hwanted with hweb | hweb
  · rw [hweb]
  · rw [hweb, List.mem_append, List.mem_singleton]
    simp [Nat.ne_of_lt hold]

theorem Coherent.opening (h : Coherent p) (hwanted : call.wanted? = some (role, none))
    (hfree : p.held? call = none) (hopen : p.isClosed = false) :
    Coherent (p.opening call role) where
  numbered {client other} := by
    rw [role_opening, opening_log, List.mem_append, (h.readied call hopen).numbered, roles_readied]
    simp
  unopened hle := by
    rw [releases_opening]
    refine h.unopened ?_
    rw [← roles_length, roles_opening, List.length_append, roles_length] at hle
    omega
  web_opened entry hentry := by
    rw [role_opening]
    rcases (mem_web_opening hwanted).mp hentry with hold | ⟨hrole, hnew⟩
    · exact .inl (h.web_opened entry hold)
    · exact .inr ⟨hnew, hrole.symm⟩
  web_nodup := by
    rcases webClients_opening (p := p) hwanted with hweb | hweb
    · rw [hweb]
      exact h.web_nodup
    · rw [hweb, List.nodup_append]
      refine ⟨h.web_nodup, List.nodup_singleton _, ?_⟩
      intro client hmem other hother
      rw [List.mem_singleton.mp hother]
      exact Nat.ne_of_lt (h.web_lt hmem)
  shared_opened hshared := by
    rcases shared_opening hwanted hshared with hold | ⟨hnew, config, hrole⟩
    · obtain ⟨config, hconfig⟩ := h.shared_opened hold
      exact ⟨config, role_opening.mpr (.inl hconfig)⟩
    · exact ⟨config, role_opening.mpr (.inr ⟨hnew, hrole.symm⟩)⟩
  workers_opened hworkers := by
    rw [role_opening]
    rcases (workers_opening hwanted hfree).mp hworkers with hold | ⟨hnew, hrole⟩
    · exact .inl (h.workers_opened hold)
    · exact .inr ⟨hnew.symm, hrole.symm⟩
  web_released {client certificate} hrole := by
    rw [releases_opening]
    rcases role_opening.mp hrole with hold | ⟨rfl, rfl⟩
    · rw [h.web_released hold]
      exact if_congr (mem_webClients_opening hwanted (lt_opened hold)).symm rfl rfl
    · have hkept : p.opened ∈ (p.opening call (.http certificate)).webClients := List.mem_map.mpr
        ⟨(certificate, p.opened), (mem_web_opening hwanted).mpr (.inr ⟨rfl, rfl⟩), rfl⟩
      rw [h.unopened (Nat.le_refl _), if_pos hkept]
  workers_released {client} hrole := by
    rw [releases_opening]
    rcases role_opening.mp hrole with hold | ⟨rfl, rfl⟩
    · rw [h.workers_released hold]
      refine if_congr ?_ rfl rfl
      rw [workers_opening hwanted hfree]
      simp [Nat.ne_of_gt (lt_opened hold)]
    · have hkept : (p.opening call .workers).workers = some p.opened :=
        (workers_opening hwanted hfree).mpr (.inr ⟨rfl, rfl⟩)
      rw [h.unopened (Nat.le_refl _), if_pos hkept]
  closed hclosed := by
    have hsame : (p.opening call role).isClosed = p.isClosed := by
      cases call <;> simp [Pool.opening, holding, Pool.readied, startLoop_eq, note]
    rw [hsame, hopen] at hclosed
    cases hclosed

theorem Coherent.not_mem_webClients (h : Coherent p) (hrole : p.roles[client]? = some role)
    (hother : ∀ certificate, role ≠ .http certificate) : client ∉ p.webClients := by
  intro hmem
  obtain ⟨entry, hentry, rfl⟩ := List.mem_map.mp hmem
  cases (h.web_opened entry hentry).symm.trans hrole
  exact hother entry.1 rfl

theorem Coherent.shared_ne (h : Coherent p) (hrole : p.roles[client]? = some role)
    (hother : ∀ config, role ≠ .producer config) : p.shared ≠ some client := by
  intro hshared
  obtain ⟨config, hconfig⟩ := h.shared_opened hshared
  cases hconfig.symm.trans hrole
  exact hother config rfl

theorem Coherent.workers_ne (h : Coherent p) (hrole : p.roles[client]? = some role)
    (hother : role ≠ .workers) : p.workers ≠ some client := by
  intro hworkers
  cases (h.workers_opened hworkers).symm.trans hrole
  exact hother rfl

theorem Coherent.not_held (h : Coherent p) (hle : p.opened ≤ client) :
    p.shared ≠ some client ∧ client ∉ p.webClients ∧ p.workers ≠ some client := by
  have hfresh : ∀ {role}, p.roles[client]? ≠ some role := fun hrole =>
    Nat.not_lt.mpr hle (lt_opened hrole)
  refine ⟨fun hshared => ?_, fun hmem => Nat.not_lt.mpr hle (h.web_lt hmem),
    fun hworkers => hfresh (h.workers_opened hworkers)⟩
  obtain ⟨config, hconfig⟩ := h.shared_opened hshared
  exact hfresh hconfig

theorem filter_closings {clients : List Nat} (hnodup : clients.Nodup) (client : Nat) :
    (clients.map ClientEvent.closed).filter (fun event => event.released? == some client) =
      if client ∈ clients then [.closed client] else [] := by
  have hpick : ((fun event : ClientEvent => event.released? == some client) ∘ .closed) =
      fun other => other == client := by
    funext other
    simp [ClientEvent.released?]
  rw [List.filter_map, hpick, List.filter_beq, hnodup.count]
  split <;> rfl

theorem releases_cleared (h : Coherent p) (client : Nat) :
    p.clearHttpClients.releases client =
      p.releases client ++ if client ∈ p.webClients then [.closed client] else [] := by
  have hevents : p.clearHttpClients.log = p.log ++ p.webClients.map ClientEvent.closed := by
    simp [clearHttpClients, webClients]
  rw [releases, hevents, List.filter_append, filter_closings h.web_nodup, releases]

theorem filter_disposal (held : Option Nat) (client : Nat) :
    (held.toList.flatMap fun other => [ClientEvent.flushed other, .closed other]).filter
        (fun event => event.released? == some client) =
      if held = some client then [.flushed client, .closed client] else [] := by
  cases held with
  | none => rfl
  | some other =>
    by_cases h : other = client
    · simp [h, ClientEvent.released?]
    · simp [h, ClientEvent.released?]

theorem releases_close (h : Coherent p) (hopen : p.isClosed = false) (client : Nat) :
    p.close.releases client = p.releases client ++
      (((if p.shared = some client then [.flushed client, .closed client] else []) ++
        (if client ∈ p.webClients then [.closed client] else [])) ++
        if p.workers = some client then [.closed client] else []) := by
  have hweb : (p.web.map fun entry => ClientEvent.closed entry.2) =
      p.webClients.map ClientEvent.closed := by simp [webClients]
  have hworkers : p.workers.toList.Nodup := by cases p.workers <;> simp
  have hloop : (if p.loop then [ClientEvent.loopStopped] else []).filter
      (fun event => event.released? == some client) = [] := by
    split <;> simp [ClientEvent.released?]
  rw [close_open hopen, releases, List.filter_append, releases, shutting, hweb, List.filter_append,
    List.filter_append, List.filter_append, filter_disposal, filter_closings h.web_nodup,
    filter_closings hworkers, hloop, List.append_nil]
  simp only [Option.mem_toList]

@[simp]
theorem webClients_cleared (p : Pool) : p.clearHttpClients.webClients = [] := rfl

theorem roles_cleared (p : Pool) : p.clearHttpClients.roles = p.roles := by
  simp [roles, clearHttpClients, ClientEvent.role?, List.filterMap_map, Function.comp_def]

theorem opened_cleared (p : Pool) : p.clearHttpClients.opened = p.opened := by
  rw [← roles_length, roles_cleared, roles_length]

theorem Coherent.cleared (h : Coherent p) : Coherent p.clearHttpClients where
  numbered {client role} := by
    rw [roles_cleared, ← h.numbered]
    simp [clearHttpClients]
  unopened hle := by
    rw [opened_cleared] at hle
    rw [releases_cleared h, h.unopened hle, if_neg (h.not_held hle).2.1, List.append_nil]
  web_opened entry hentry := by cases hentry
  web_nodup := List.nodup_nil
  shared_opened hshared := by
    rw [roles_cleared]
    exact h.shared_opened hshared
  workers_opened hworkers := by
    rw [roles_cleared]
    exact h.workers_opened hworkers
  web_released {client certificate} hrole := by
    rw [roles_cleared] at hrole
    rw [releases_cleared h, h.web_released hrole]
    by_cases hmem : client ∈ p.webClients <;> simp [hmem]
  workers_released {client} hrole := by
    rw [roles_cleared] at hrole
    have hout := h.not_mem_webClients hrole (by simp)
    rw [releases_cleared h, h.workers_released hrole, if_neg hout, List.append_nil]
    rfl
  closed hclosed := by
    obtain ⟨-, hrest⟩ := h.closed hclosed
    exact ⟨rfl, hrest⟩

theorem shutting_events {event : ClientEvent} (h : event ∈ p.shutting) :
    event = .loopStopped ∨ ∃ client, event = .flushed client ∨ event = .closed client := by
  simp only [shutting, List.mem_append, List.mem_flatMap, List.mem_map, List.mem_cons] at h
  rcases h with ((⟨client, _, rfl | rfl | h⟩ | ⟨entry, _, rfl⟩) | ⟨client, _, rfl⟩) | h
  · exact .inr ⟨client, .inl rfl⟩
  · exact .inr ⟨client, .inr rfl⟩
  · cases h
  · exact .inr ⟨entry.2, .inr rfl⟩
  · exact .inr ⟨client, .inr rfl⟩
  · split at h
    · exact .inl (List.mem_singleton.mp h)
    · cases h

theorem role?_shutting {event : ClientEvent} (h : event ∈ p.shutting) : event.role? = none := by
  rcases shutting_events h with rfl | ⟨client, rfl | rfl⟩ <;> rfl

theorem roles_close (p : Pool) : p.close.roles = p.roles := by
  cases hopen : p.isClosed with
  | true => rw [close_closed hopen]
  | false =>
    have hnone := List.filterMap_eq_nil_iff.mpr fun event (hmem : event ∈ p.shutting) =>
      role?_shutting hmem
    rw [close_open hopen, roles, List.filterMap_append, hnone, List.append_nil, roles]

theorem opened_close (p : Pool) : p.close.opened = p.opened := by
  rw [← roles_length, roles_close, roles_length]

theorem close_empty (hopen : p.isClosed = false) :
    p.close.web = [] ∧ p.close.shared = none ∧ p.close.workers = none ∧ p.close.loop = false := by
  rw [close_open hopen]
  exact ⟨rfl, rfl, rfl, rfl⟩

theorem webClients_close (hopen : p.isClosed = false) : p.close.webClients = [] := by
  rw [webClients, (close_empty hopen).1, List.map_nil]

theorem Coherent.close_of_open (h : Coherent p) (hopen : p.isClosed = false) :
    Coherent p.close where
  numbered {client role} := by
    rw [roles_close, ← h.numbered, close_open hopen, List.mem_append]
    exact or_iff_left fun hmem => by cases role?_shutting hmem
  unopened hle := by
    rw [opened_close] at hle
    obtain ⟨hshared, hweb, hworkers⟩ := h.not_held hle
    rw [releases_close h hopen, h.unopened hle, if_neg hshared, if_neg hweb, if_neg hworkers]
    rfl
  web_opened entry hentry := by
    rw [(close_empty hopen).1] at hentry
    cases hentry
  web_nodup := by
    rw [webClients_close hopen]
    exact List.nodup_nil
  shared_opened hshared := by
    rw [(close_empty hopen).2.1] at hshared
    cases hshared
  workers_opened hworkers := by
    rw [(close_empty hopen).2.2.1] at hworkers
    cases hworkers
  web_released {client certificate} hrole := by
    rw [roles_close] at hrole
    rw [releases_close h hopen, h.web_released hrole, if_neg (h.shared_ne hrole (by simp)),
      if_neg (h.workers_ne hrole (by simp)), webClients_close hopen]
    by_cases hmem : client ∈ p.webClients <;> simp [hmem]
  workers_released {client} hrole := by
    rw [roles_close] at hrole
    rw [releases_close h hopen, h.workers_released hrole, if_neg (h.shared_ne hrole (by simp)),
      if_neg (h.not_mem_webClients hrole (by simp)), (close_empty hopen).2.2.1]
    by_cases hmem : p.workers = some client <;> simp [hmem]
  closed _ := close_empty hopen

theorem Coherent.close (h : Coherent p) : Coherent p.close := by
  cases hopen : p.isClosed with
  | true => rwa [close_closed hopen]
  | false => exact h.close_of_open hopen

/-- Whatever is asked, the ledger goes on to be coherent. -/
theorem Coherent.asked (h : Coherent p) (hasked : Asked p call answer q) : Coherent q := by
  cases hasked with
  | held _ => exact h
  | refused _ _ _ => exact h
  | failed _ _ hadmitted => exact h.readied _ (open_of_admitted hadmitted)
  | opened hwanted hfree hadmitted => exact h.opening hwanted hfree (open_of_admitted hadmitted)
  | cleared => exact h.cleared
  | closed => exact h.close

def numbers (p : Pool) : List Nat := p.log.filterMap ClientEvent.number?

def loopEvents (p : Pool) : List ClientEvent := p.log.filter ClientEvent.ofLoop

/-- Clients are numbered apart, and the loop is started once and stopped by closing the pool. -/
structure Kept (p : Pool) : Prop where
  numbers : p.numbers = List.range p.opened
  loop : (p.loop = false ∧ p.loopEvents = []) ∨ (p.loop = !p.isClosed ∧
    p.loopEvents = .loopStarted :: if p.isClosed then [.loopStopped] else [])

theorem Kept.startLoop (h : Kept p) (hopen : p.isClosed = false) : Kept p.startLoop := by
  refine ⟨?_, .inr ?_⟩
  · rw [opened_startLoop, ← h.numbers, startLoop_eq, Pool.numbers, List.filterMap_append]
    split <;> simp [Pool.numbers, ClientEvent.number?]
  · have hevents : p.startLoop.loopEvents =
        p.loopEvents ++ if p.loop then [] else [.loopStarted] := by
      rw [startLoop_eq, loopEvents, List.filter_append, loopEvents]
      split <;> rfl
    rw [hevents, startLoop_eq]
    rcases h.loop with ⟨hloop, hnil⟩ | ⟨hloop, hstarted⟩
    · simp [hloop, hopen, hnil]
    · simp [hloop, hopen, hstarted]

theorem Kept.readied (h : Kept p) (call : PoolCall) (hopen : p.isClosed = false) :
    Kept (p.readied call) := by
  rcases p.readied_cases call with hr | hr
  · rwa [hr]
  · rw [hr]
    exact h.startLoop hopen

theorem Kept.opening (h : Kept p) (hopen : p.isClosed = false) :
    Kept (p.opening call role) := by
  have hready := h.readied call hopen
  have hloop : (p.opening call role).loop = (p.readied call).loop := by cases call <;> rfl
  have hclosed : (p.opening call role).isClosed = (p.readied call).isClosed := by cases call <;> rfl
  have hopened : (p.readied call).opened = p.opened := by
    rw [← roles_length, roles_readied, roles_length]
  refine ⟨?_, ?_⟩
  · have hnumbers := hready.numbers
    rw [Pool.numbers] at hnumbers
    rw [← roles_length, roles_opening, List.length_append, roles_length, List.length_singleton,
      List.range_succ, Pool.numbers, opening_log, List.filterMap_append, hnumbers, hopened]
    rfl
  · have hevents : (p.opening call role).loopEvents = (p.readied call).loopEvents := by
      rw [loopEvents, opening_log, List.filter_append]
      exact List.append_nil _
    rw [hloop, hclosed, hevents]
    exact hready.loop

theorem Kept.cleared (h : Kept p) : Kept p.clearHttpClients := by
  have hnumbers : p.clearHttpClients.numbers = p.numbers := by
    simp [Pool.numbers, clearHttpClients, ClientEvent.number?]
  have hevents : p.clearHttpClients.loopEvents = p.loopEvents := by
    simp [loopEvents, clearHttpClients, List.filter_map, Function.comp_def]
  refine ⟨?_, ?_⟩
  · rw [hnumbers, h.numbers, ← roles_length, ← roles_length, roles_cleared]
  · rw [hevents]
    exact h.loop

theorem Kept.close (h : Kept p) : Kept p.close := by
  cases hopen : p.isClosed with
  | true => rwa [close_closed hopen]
  | false =>
    refine ⟨?_, ?_⟩
    · have hnone := List.filterMap_eq_nil_iff.mpr fun event (hmem : event ∈ p.shutting) =>
        ClientEvent.number?_eq_none (role?_shutting hmem)
      rw [← roles_length, roles_close, roles_length, ← h.numbers, close_open hopen, Pool.numbers,
        List.filterMap_append, hnone, List.append_nil, Pool.numbers]
    · have hevents : p.close.loopEvents =
          p.loopEvents ++ if p.loop then [.loopStopped] else [] := by
        rw [close_open hopen, loopEvents, List.filter_append, loopEvents, shutting]
        cases p.shared <;> cases p.workers <;> cases p.loop <;>
          simp [List.filter_map, Function.comp_def]
      rw [hevents, close_open hopen]
      rcases h.loop with ⟨hloop, hnil⟩ | ⟨hloop, hstarted⟩
      · exact .inl ⟨rfl, by simp [hloop, hnil]⟩
      · exact .inr ⟨rfl, by simp [hloop, hopen, hstarted]⟩

theorem Kept.asked (h : Kept p) (hasked : Asked p call answer q) : Kept q := by
  cases hasked with
  | held _ => exact h
  | refused _ _ _ => exact h
  | failed _ _ hadmitted => exact h.readied _ (open_of_admitted hadmitted)
  | opened _ _ hadmitted => exact h.opening (open_of_admitted hadmitted)
  | cleared => exact h.cleared
  | closed => exact h.close

end Pool

end Rehearsal
