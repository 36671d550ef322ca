import Rehearsal.Proofs.Execution.Errand
import Rehearsal.Proofs.Execution.Provenance

/-! The client of a step is released once, after all that the step does with it, and a producer that
is shared never is, in whatever order the calls come to an end. What the world writes down of a step
is what is written down of such an errand, in which the sends that the workers took began in the
order in which they took them. -/

namespace Rehearsal

namespace Errand

variable {e : Errand} {s s' : State}

def State.begun (s : State) : List Nat := s.log.filterMap Happening.began?

/-! An errand whose tasks run one after another. -/

/-- A task that makes a number of calls, from its begin to its end. -/
def turn (i calls : Nat) : List Happening :=
  .began i :: (List.replicate calls (.called i) ++ [.ended i])

def turns (order : List (Nat × Nat)) : List Happening :=
  order.flatMap fun (i, calls) => turn i calls

theorem turns_cons (next : Nat × Nat) (order : List (Nat × Nat)) :
    turns (next :: order) = turn next.1 next.2 ++ turns order := rfl

theorem turns_event? (order : List (Nat × Nat)) (client : Nat) :
    (turns order).filterMap (Happening.event? client) =
      List.replicate (order.map Prod.snd).sum (.used client) := by
  induction order with
  | nil => rfl
  | cons next order ih =>
    have hcalls : (List.replicate next.2 (.called next.1)).filterMap (Happening.event? client) =
        List.replicate next.2 (.used client) := List.filterMap_replicate_of_some rfl
    have hnext : (turn next.1 next.2).filterMap (Happening.event? client) =
        List.replicate next.2 (.used client) := by
      simpa [turn, List.filterMap_cons, Happening.event?] using hcalls
    rw [turns_cons, List.filterMap_append, ih, hnext, List.map_cons, List.sum_cons,
      List.replicate_add]

theorem turns_begun (order : List (Nat × Nat)) :
    (turns order).filterMap Happening.began? = order.map Prod.fst := by
  induction order with
  | nil => rfl
  | cons next order ih =>
    have hnext : (turn next.1 next.2).filterMap Happening.began? = [next.1] := by
      simp [turn, List.filterMap_cons, Happening.began?]
    rw [turns_cons, List.filterMap_append, ih, hnext, List.map_cons, List.singleton_append]

theorem turns_released (order : List (Nat × Nat)) :
    (turns order).filterMap Happening.released? = [] := by
  induction order with
  | nil => rfl
  | cons next order ih =>
    have hnext : (turn next.1 next.2).filterMap Happening.released? = [] := by
      simp [turn, List.filterMap_cons, Happening.released?]
    rw [turns_cons, List.filterMap_append, ih, hnext, List.append_nil]

/-- Whether every task is handed out, and over or one of a send that has not begun. -/
structure Resting (e : Errand) (s : State) : Prop where
  shaped : e.Shaped s
  tasks : ∀ task ∈ s.tasks, task.isOver = true ∨ e.sends = true ∧ ∃ calls, task = .waiting calls
  handed : ∀ calls rest, s.phase ≠ .handing (calls :: rest)

/-- An errand goes on without beginning a task, and nothing but releases happens. -/
def Quiet (e : Errand) (s : State) : Prop :=
  ∃ next, e.Moves s next ∧ e.Resting next ∧
    ∃ events : List ClientEvent, next.log = s.log ++ events.map .released

theorem Resting.quiet (h : e.Resting s) (hm : e.Moves s s') (htasks : s'.tasks = s.tasks)
    (hphase : ∀ calls rest, s'.phase ≠ .handing (calls :: rest)) (hlog : s'.log = s.log) :
    e.Quiet s :=
  ⟨s', hm, ⟨h.shaped.moves hm, htasks.symm ▸ h.tasks, hphase⟩, [], by simp [hlog]⟩

theorem Resting.quiet_drop (h : e.Resting s) {rest : List Nat} {i : Nat}
    (hp : s.phase = .dropping rest) (hi : i ∈ rest) : e.Quiet s := by
  have hm : e.Moves s _ := .drop hp hi
  refine ⟨_, hm, ⟨h.shaped.moves hm, fun task hmem => ?_, by simp⟩, [], by simp⟩
  rw [State.unhook_tasks] at hmem
  obtain ⟨j, hj⟩ := List.mem_iff_getElem?.mp hmem
  rw [List.getElem?_modify] at hj
  obtain ⟨old, hold, rfl⟩ := Option.map_eq_some_iff.mp hj
  rcases h.tasks old (List.mem_of_getElem? hold) with hover | ⟨hsends, calls, rfl⟩
  · split
    · rw [Task.isOver_drop hover]
      exact .inl hover
    · exact .inl hover
  · split
    · exact .inl rfl
    · exact .inr ⟨hsends, calls, rfl⟩

theorem Resting.quiet_shed (h : e.Resting s) (hp : s.phase = .done) (hs : e.sends = true)
    {i calls : Nat} (ht : s.tasks[i]? = some (.waiting calls)) : e.Quiet s := by
  have hm : e.Moves s _ := .shed hp hs ht
  refine ⟨_, hm, ⟨h.shaped.moves hm, fun task hmem => ?_, by simp [hp]⟩, [], by simp⟩
  rw [State.unhook_tasks] at hmem
  rcases List.mem_or_eq_of_mem_set hmem with hold | rfl
  · exact h.tasks task hold
  · exact .inl rfl

/-- Where the step is not done it goes on by itself; else what waits is dropped, and what was begun
of the release is done. -/
theorem Resting.still_or_quiet (h : e.Resting s) : s.Still e ∨ e.Quiet s := by
  cases hp : s.phase with
  | handing rest =>
    cases rest with
    | nil =>
      refine .inr (h.quiet (.handed hp) rfl (fun calls rest => ?_) rfl)
      dsimp only
      split <;> simp
    | cons calls rest => exact absurd hp (h.handed calls rest)
  | hooking => exact .inr (h.quiet (.hook hp) (by simp) (by simp) (by simp))
  | waiting =>
    refine .inr (h.quiet (.resume hp) rfl (fun calls rest => ?_) rfl)
    dsimp only
    split <;> simp
  | dropping rest =>
    cases rest with
    | nil =>
      refine .inr (h.quiet (.dropped hp) rfl (fun calls rest => ?_) rfl)
      dsimp only
      split <;> simp
    | cons i rest => exact .inr (h.quiet_drop hp List.mem_cons_self)
  | looking next found =>
    rcases Nat.lt_or_eq_of_le (h.shaped.looking next found hp).2.2.1 with hlt | rfl
    · exact .inr (h.quiet (.look hp hlt) rfl nofun rfl)
    · cases found with
      | nil => exact .inr (h.quiet (.clear hp) rfl nofun rfl)
      | cons i found => exact .inr (h.quiet (.leave hp (List.cons_ne_nil _ _)) rfl nofun rfl)
  | done =>
    by_cases hs : s.Still e
    · exact .inl hs
    · obtain ⟨next, hm⟩ : ∃ next, e.Moves s next := by simpa [State.Still] using hs
      refine .inr ?_
      cases hm with
      | work ht hg =>
        rcases h.tasks _ (List.mem_of_getElem? ht) with hover | ⟨hsends, calls, rfl⟩
        · rw [hg.not_over] at hover
          cases hover
        · exact h.quiet_shed hp hsends ht
      | shed _ hsends ht => exact h.quiet_shed hp hsends ht
      | settle hw hover => exact h.quiet (.settle hw hover) rfl (by simp [State.release, hp]) rfl
      | @part event rest hl =>
        have hm : e.Moves s _ := .part hl
        exact ⟨_, hm, ⟨h.shaped.moves hm, h.tasks, h.handed⟩, [event], rfl⟩
      -- The other moves are those of a step that is not done.
      | _ => simp_all

theorem Resting.exists_still (h : e.Resting s) : ∃ s', Relation.ReflTransGen e.Moves s s' ∧
    s'.Still e ∧ ∃ events : List ClientEvent, s'.log = s.log ++ events.map .released := by
  induction s using (wellFounded_moves e).induction with
  | _ s ih =>
    rcases h.still_or_quiet with hstill | ⟨next, hm, hnext, events, hlog⟩
    · exact ⟨s, .refl, hstill, [], by simp⟩
    · obtain ⟨s', hrun, hstill, more, hlog'⟩ := ih next hm hnext
      refine ⟨s', .head hm hrun, hstill, events ++ more, ?_⟩
      rw [hlog', hlog, List.map_append, List.append_assoc]

/-- An errand whose tasks are handed out, and of whose release nothing was thought yet. -/
def handed (tasks : List Task) (log : List Happening) : State :=
  ⟨tasks, .handing [], false, [], [], log⟩

theorem run_hand (e : Errand) (tasks : List Task) (rest : List Nat) :
    Relation.ReflTransGen e.Moves ⟨tasks, .handing rest, false, [], [], []⟩
      (handed (tasks ++ rest.map .waiting) []) := by
  induction rest generalizing tasks with
  | nil =>
    rw [List.map_nil, List.append_nil]
    exact .refl
  | cons calls rest ih =>
    have hrest := ih (tasks ++ [.waiting calls])
    rw [List.append_assoc] at hrest
    exact .head (.hand rfl) hrest

theorem moves_work (e : Errand) {tasks : List Task} {i : Nat} {task next : Task}
    {happening : Happening} (log : List Happening) (h : tasks[i]? = some task)
    (hg : task.Goes i next happening) :
    e.Moves (handed tasks log) (handed (tasks.set i next) (log ++ [happening])) :=
  .work (s := handed tasks log) h hg

theorem run_task (e : Errand) {tasks : List Task} {i bound calls : Nat}
    (h : tasks[i]? = some (.waiting bound)) (hcalls : calls ≤ bound) (log : List Happening) :
    Relation.ReflTransGen e.Moves (handed tasks log)
      (handed (tasks.set i .ended) (log ++ turn i calls)) := by
  have hlt : i < tasks.length := (List.getElem?_eq_some_iff.mp h).1
  -- While it runs, by induction on the calls that are still to come.
  have hruns : ∀ (calls bound : Nat), calls ≤ bound → ∀ log : List Happening,
      Relation.ReflTransGen e.Moves (handed (tasks.set i (.running bound)) log)
        (handed (tasks.set i .ended)
          (log ++ (List.replicate calls (.called i) ++ [.ended i]))) := by
    intro calls
    induction calls with
    | zero =>
      intro bound _ log
      have hm := e.moves_work log (List.getElem?_set_self hlt) (.finish bound)
      rw [List.set_set] at hm
      exact .single hm
    | succ calls ih =>
      intro bound hle log
      obtain ⟨rest, rfl⟩ : ∃ rest, bound = rest + 1 := ⟨bound - 1, by omega⟩
      have hm := e.moves_work log (List.getElem?_set_self hlt) (.call rest)
      rw [List.set_set] at hm
      have hrest := ih rest (by omega) (log ++ [.called i])
      rw [List.append_assoc] at hrest
      exact .head hm hrest
  have hrest := hruns calls bound hcalls (log ++ [.began i])
  rw [List.append_assoc] at hrest
  exact .head (e.moves_work log h (.begin bound)) hrest

theorem run_order (e : Errand) (order : List (Nat × Nat)) {tasks : List Task}
    (hnodup : (order.map Prod.fst).Nodup) (hwaiting : ∀ next ∈ order, ∃ bound,
      tasks[next.1]? = some (.waiting bound) ∧ next.2 ≤ bound) (log : List Happening) :
    ∃ tasks' : List Task,
      Relation.ReflTransGen e.Moves (handed tasks log)
        (handed tasks' (log ++ turns order)) ∧
      ∀ i, tasks'[i]? = if i ∈ order.map Prod.fst then some .ended else tasks[i]? := by
  induction order generalizing tasks log with
  | nil =>
    rw [show turns [] = [] from rfl, List.append_nil]
    exact ⟨tasks, .refl, fun _ => (if_neg List.not_mem_nil).symm⟩
  | cons next order ih =>
    obtain ⟨hnew, hnodup⟩ := List.nodup_cons.mp hnodup
    obtain ⟨bound, hbound, hcalls⟩ := hwaiting next List.mem_cons_self
    have hlt : next.1 < tasks.length := (List.getElem?_eq_some_iff.mp hbound).1
    have hothers : ∀ other ∈ order, ∃ bound,
        (tasks.set next.1 .ended)[other.1]? = some (.waiting bound) ∧ other.2 ≤ bound := by
      intro other hother
      have hne : next.1 ≠ other.1 := fun heq => hnew (heq ▸ List.mem_map_of_mem hother)
      rw [List.getElem?_set_ne hne]
      exact hwaiting other (List.mem_cons_of_mem _ hother)
    obtain ⟨tasks', hrun, hafter⟩ := ih hnodup hothers (log ++ turn next.1 next.2)
    rw [List.append_assoc] at hrun
    refine ⟨tasks', (e.run_task hbound hcalls log).trans hrun, fun i => ?_⟩
    rw [hafter i, List.map_cons]
    by_cases hi : i = next.1
    · rw [hi, if_neg hnew, if_pos List.mem_cons_self, List.getElem?_set_self hlt]
    · have hmem : i ∈ next.1 :: order.map Prod.fst ↔ i ∈ order.map Prod.fst :=
        List.mem_cons.trans (or_iff_right hi)
      rw [List.getElem?_set_ne (Ne.symm hi), if_congr hmem rfl rfl]

/-- An errand may come to its end with any of its tasks run, in any order: what is written down of
its client is their calls, and then the release. -/
theorem exists_run (e : Errand) {order : List (Nat × Nat)} (hnodup : (order.map Prod.fst).Nodup)
    (hbounds : ∀ next ∈ order, ∃ bound, e.tasks[next.1]? = some bound ∧ next.2 ≤ bound)
    (hall : e.sends = true ∨ ∀ i < e.tasks.length, i ∈ order.map Prod.fst) (client : Nat) :
    ∃ s : State, Relation.ReflTransGen e.Moves e.start s ∧ s.Still e ∧
      s.begun = order.map Prod.fst ∧ s.log.filterMap (Happening.event? client) =
        List.replicate (order.map Prod.snd).sum (.used client) ++
          if e.owned then e.parting else [] := by
  have hwaiting : ∀ next ∈ order, ∃ bound,
      (e.tasks.map Task.waiting)[next.1]? = some (.waiting bound) ∧ next.2 ≤ bound := by
    intro next hnext
    obtain ⟨bound, hbound, hcalls⟩ := hbounds next hnext
    exact ⟨bound, by rw [List.getElem?_map, hbound]; rfl, hcalls⟩
  obtain ⟨tasks, hworked, hafter⟩ := e.run_order order hnodup hwaiting []
  have hbefore : Relation.ReflTransGen e.Moves e.start (handed tasks (turns order)) :=
    (e.run_hand [] e.tasks).trans hworked
  -- a task that is not in the order is one of a send, and has not begun
  have hresting : e.Resting (handed tasks (turns order)) := by
    refine ⟨(sound_of_reachable hbefore).shaped, fun task hmem => ?_, nofun⟩
    obtain ⟨i, hi⟩ := List.mem_iff_getElem?.mp hmem
    rw [show (handed tasks (turns order)).tasks = tasks from rfl, hafter i] at hi
    split at hi
    · cases hi
      exact .inl rfl
    · rename_i hnot
      obtain ⟨calls, -, rfl⟩ := List.mem_map.mp (List.mem_of_getElem? hi)
      have hlt := (List.getElem?_eq_some_iff.mp hi).1
      exact .inr ⟨hall.resolve_right fun hall => hnot (hall i (by simpa using hlt)), calls, rfl⟩
  obtain ⟨s, hrun, hstill, events, hlog⟩ := hresting.exists_still
  have hreach := hbefore.trans hrun
  have hlog : s.log = turns order ++ events.map .released := hlog
  have hevents : events = if e.owned then e.parting else [] := by
    rw [← (sound_of_reachable hreach).released_still hstill, State.released, hlog,
      List.filterMap_append, turns_released, List.filterMap_map]
    exact (List.filterMap_some).symm
  refine ⟨s, hreach, hstill, ?_, ?_⟩
  · rw [State.begun, hlog, List.filterMap_append, turns_begun, List.filterMap_map]
    simp [Function.comp_def, Happening.began?]
  · rw [hlog, List.filterMap_append, turns_event?, List.filterMap_map, ← hevents]
    exact congrArg _ List.filterMap_some

end Errand

namespace Pool

variable {p q r : Pool} {call : PoolCall} {answer : Except Fault (Option Nat)}

/-- A call for a client of a broker, or for workers, only opens clients: none where it fails, and
the one it gives where none was held. -/
theorem Asked.openings (h : Asked p call answer q) {role : ClientRole}
    (hwanted : call.wanted? = some (role, none)) (hhttp : ∀ certificate, role ≠ .http certificate) :
    ∃ opened : List ClientEvent, q.log = p.log ++ opened ∧
      (∀ event ∈ opened, isOpening event = true) ∧
      (∀ fault, answer = .error fault → opened = []) ∧
      ∀ client, answer = .ok (some client) → p.held? call = none →
        client = p.opened ∧ .opened client role ∈ opened := by
  cases h with
  | held hheld =>
    refine ⟨[], (List.append_nil _).symm, nofun, fun _ hfault => (by cases hfault),
      fun client _ hfree => ?_⟩
    rw [hheld] at hfree
    cases hfree
  | refused _ _ _ =>
    exact ⟨[], (List.append_nil _).symm, nofun, fun _ _ => rfl, fun _ hok => (by cases hok)⟩
  | failed hfailing _ _ =>
    rw [hwanted] at hfailing
    cases hfailing
  | opened hopening _ _ =>
    rw [hwanted] at hopening
    cases hopening
    refine ⟨[.opened p.opened role], ?_, by simp [isOpening], fun _ hfault => (by cases hfault), ?_⟩
    · cases call with
      | httpClient certificate failure =>
        cases hwanted
        exact absurd rfl (hhttp certificate)
      | _ => rfl
    · rintro client ⟨⟩ -
      exact ⟨rfl, List.mem_singleton_self _⟩
  | cleared => cases hwanted
  | closed => cases hwanted

theorem Asked.held_of_idle {role : ClientRole} {client : Nat} {fault : Fault}
    (hgiven : Asked p call (.ok (some client)) q) (hwanted : call.wanted? = some (role, none))
    (hhttp : ∀ certificate, role ≠ .http certificate)
    (hidle : Asked q (.executor none) (.error fault) r) : q = p := by
  cases hgiven with
  | held _ => rfl
  | opened hopening _ hadmitted =>
    rw [hwanted] at hopening
    cases hopening
    have hopen : (p.opening call role).isClosed = false := by
      rw [← open_of_admitted hadmitted]
      cases call with
      | httpClient certificate failure =>
        cases hwanted
        exact absurd rfl (hhttp certificate)
      | _ => rfl
    cases hidle with
    | refused _ _ hrefusal => simp [refusal?, hopen, PoolCall.needsBroker] at hrefusal
    | failed hfailing _ _ => cases hfailing

end Pool

/-! What a world writes down of a step. -/

namespace Sending

open Pool

variable {s : Sending} {settings : BrokerSettings} {p q : Pool} {client calls : Nat}

theorem wanted_call (s : Sending) (config : ClientConfig) :
    (s.call config).wanted? = some (.producer config, none) := by
  rw [call]
  split <;> rfl

theorem Sent.log_none (h : s.Sent settings p none q) : q.log = p.log := by
  cases h with
  | unresolved _ => rfl
  | refused _ hrefused =>
    obtain ⟨opened, hlog, -, hnone, -⟩ := hrefused.openings (s.wanted_call _) nofun
    rw [hlog, hnone _ rfl, List.append_nil]
  | idle _ hgiven hidle =>
    have hheld := hgiven.held_of_idle (s.wanted_call _) nofun hidle
    obtain ⟨opened, hlog, -, hnone, -⟩ := hidle.openings rfl nofun
    rw [hlog, hnone _ rfl, List.append_nil, hheld]

/-- What is written down of a step that sends: what is opened, and then the calls and, for a
producer of its own, the release. -/
theorem Sent.log_some (h : s.Sent settings p (some (client, calls)) q) :
    ∃ opened : List ClientEvent, q.log = p.log ++ opened ++ (List.replicate calls (.used client) ++
        if s.plain then [] else [.flushed client, .closed client]) ∧
      (∀ event ∈ opened, isOpening event = true) ∧
      if s.plain then q.shared = some client
      else client = p.opened ∧ ∃ role, .opened client role ∈ opened := by
  have hproducer := Turn.sent_producer h
  cases h with
  | @sent config q r _ _ _ _ hgiven hworkers =>
    obtain ⟨first, hfirst, hopenings, -, hfresh⟩ := hgiven.openings (s.wanted_call config) nofun
    obtain ⟨second, hsecond, hopenings', -⟩ := hworkers.openings rfl nofun
    refine ⟨first ++ second, ?_, ?_, ?_⟩
    · rw [worn]
      cases s.plain <;> simp [dispose, hsecond, hfirst]
    · intro event hmem
      exact (List.mem_append.mp hmem).elim (hopenings event) (hopenings' event)
    · cases hplain : s.plain with
      | true => simpa [hplain] using hproducer
      | false =>
        have hheld : p.held? (s.call config) = none := by
          rw [call, hplain]
          rfl
        obtain ⟨hclient, hmem⟩ := hfresh client rfl hheld
        exact ⟨hclient, _, List.mem_append_left _ hmem⟩

end Sending

/-- Every step but a request has work for a client: of its own, unless it sends and asks for nothing
of its own, and a producer if it sends. -/
theorem Step.exists_errand {step : Step} (hstep : ∀ request, step ≠ .http request) (client : Nat) :
    ∃ e, step.errand? client = some e ∧ e.client = client ∧
      e.owned = step.sending?.all (fun s => !s.plain) ∧ e.sends = step.sending?.isSome := by
  cases step with
  | http request => exact absurd rfl (hstep request)
  | produce step => exact ⟨_, rfl, rfl, rfl, rfl⟩
  | batchProduce step => exact ⟨_, rfl, rfl, rfl, rfl⟩
  | consume step => exact ⟨_, rfl, rfl, rfl, rfl⟩
  | batchConsume step => exact ⟨_, rfl, rfl, rfl, rfl⟩

theorem Step.errand_sending {step : Step} {s : Sending} (hsend : step.sending? = some s)
    (client : Nat) : ∃ e, step.errand? client = some e ∧ e.client = client ∧
      e.owned = (!s.plain) ∧ e.sends = true ∧ e.tasks = List.replicate s.messages.length 1 := by
  cases step with
  | produce step =>
    cases hsend
    exact ⟨_, rfl, rfl, rfl, rfl, rfl⟩
  | batchProduce step =>
    cases hsend
    exact ⟨_, rfl, rfl, rfl, rfl, by simp [BatchProduceStep.messagesToSend]⟩
  | http request => cases hsend
  | consume step => cases hsend
  | batchConsume step => cases hsend

namespace World

open Pool

/-- Whether what a step writes down between two pools is what is opened for it and what is written
down of an errand of it that has come to its end, in which tasks began in an order. -/
def Ran (step : Step) (order : List Nat) (p q : Pool) : Prop :=
  ∃ (e : Errand) (s : Errand.State) (opened : List ClientEvent),
    step.errand? e.client = some e ∧ Relation.ReflTransGen e.Moves e.start s ∧ s.Still e ∧
    s.begun = order ∧
    q.log = p.log ++ opened ++ s.log.filterMap (Happening.event? e.client) ∧
    (∀ event ∈ opened, isOpening event = true) ∧
    if e.owned then e.client = p.opened ∧ ∃ role, .opened e.client role ∈ opened
    else q.shared = some e.client

theorem ran_sending {step : Step} {s : Sending} {settings : BrokerSettings} {p q : Pool}
    {client : Nat} {sends : List Send} {schedule : Schedule} (hsend : step.sending? = some s)
    (hfits : schedule.Fits 0 s.messages.length)
    (h : s.Sent settings p (some (client, Cluster.callsIn sends schedule)) q) :
    Ran step schedule.started p q := by
  obtain ⟨e, herrand, rfl, howned, hsends, htasks⟩ := step.errand_sending hsend client
  obtain ⟨opened, hlog, hopenings, hclient⟩ := h.log_some
  let calls (i : Nat) : Bool := (sends[i]?).any Send.calls
  have hfst : (schedule.started.map fun i => (i, (calls i).toNat)).map Prod.fst =
      schedule.started := by simp [Function.comp_def]
  have hsum : ((schedule.started.map fun i => (i, (calls i).toNat)).map Prod.snd).sum =
      Cluster.callsIn sends schedule := by
    rw [Cluster.callsIn]
    induction schedule.started with
    | nil => rfl
    | cons i started ih =>
      rw [List.map_cons, List.map_cons, List.sum_cons, ih, List.countP_cons]
      cases hi : calls i <;> simp [calls, hi, Nat.add_comm]
  have hbounds : ∀ next ∈ schedule.started.map fun i => (i, (calls i).toNat), ∃ bound,
      e.tasks[next.1]? = some bound ∧ next.2 ≤ bound := by
    intro next hnext
    obtain ⟨i, hi, rfl⟩ := List.mem_map.mp hnext
    refine ⟨1, ?_, Bool.toNat_le _⟩
    rw [htasks, List.getElem?_replicate, if_pos (hfits.within i hi).2]
  obtain ⟨last, hreach, hstill, hbegun, hlogged⟩ :=
    e.exists_run (hfst.symm ▸ hfits.nodup) hbounds (.inl hsends) e.client
  refine ⟨e, last, opened, herrand, hreach, hstill, hbegun.trans hfst, ?_, hopenings, ?_⟩
  · rw [hlog, hlogged, hsum, howned, Errand.parting, hsends]
    cases s.plain <;> rfl
  · rw [howned]
    cases hplain : s.plain <;> simpa [hplain] using hclient

theorem consumer_log (w : World) (settings : Settings) (servers : Option String)
    (auth : Option BrokerAuthConfig) (group : Option String) (reset : OffsetReset) :
    let after := w.consumer settings servers auth group reset
    (∃ fault, after.1 = .error fault ∧ after.2.pool.log = w.pool.log) ∨
      ∃ (consumer : Consumer) (config : ClientConfig),
        after.1 = .ok (w.pool.opened, consumer) ∧
        after.2.pool.log = w.pool.log ++ [.opened w.pool.opened (.consumer config)] := by
  have hcreated : ∀ config,
      let created := w.pool.createConsumer config none
      let after := w.withPool
        (created.1.map fun client => (client, Consumer.ofConfig config), created.2)
      (∃ fault, after.1 = .error fault ∧ after.2.pool.log = w.pool.log) ∨
        ∃ (consumer : Consumer) (config : ClientConfig),
          after.1 = .ok (w.pool.opened, consumer) ∧
          after.2.pool.log = w.pool.log ++ [.opened w.pool.opened (.consumer config)] := by
    intro config
    unfold createConsumer ownClient
    split
    · exact .inl ⟨_, rfl, rfl⟩
    · exact .inr ⟨_, config, rfl, rfl⟩
  unfold consumer
  split
  · exact .inl ⟨_, rfl, rfl⟩
  · exact hcreated _

theorem drain_log (w : World) (client : Nat) (consumer : Consumer) (topic : String) (count : Nat) :
    ∃ calls ≤ count, (w.drain client consumer topic count).2.2.pool.log =
      w.pool.log ++ List.replicate calls (.used client) := by
  induction count generalizing w with
  | zero => exact ⟨0, Nat.le_refl 0, (List.append_nil _).symm⟩
  | succ count ih =>
    have hpolled : (w.poll client consumer topic).2.pool.log = w.pool.log ++ [.used client] := rfl
    rw [drain]
    rcases hpoll : w.poll client consumer topic with ⟨outcome, w₁⟩
    rw [hpoll] at hpolled
    have hone : w₁.pool.log = w.pool.log ++ List.replicate 1 (.used client) := hpolled
    cases outcome with
    | received message =>
      obtain ⟨calls, hle, hlog⟩ := ih w₁
      refine ⟨calls + 1, Nat.succ_le_succ hle, ?_⟩
      rw [List.replicate_succ, ← List.singleton_append, ← List.append_assoc, ← hpolled]
      exact hlog
    | nothing => exact ⟨1, Nat.le_add_left 1 count, hone⟩
    | hung => exact ⟨1, Nat.le_add_left 1 count, hone⟩
    | raised why => exact ⟨1, Nat.le_add_left 1 count, hone⟩

theorem ran_receiving {step : Step} {e : Errand} {p q : Pool} (role : ClientRole)
    {bound calls : Nat} (herrand : step.errand? p.opened = some e) (hclient : e.client = p.opened)
    (howned : e.owned = true) (hsends : e.sends = false) (htasks : e.tasks = [bound])
    (hcalls : calls ≤ bound)
    (hlog : q.log = p.log ++ [.opened p.opened role] ++ List.replicate calls (.used p.opened) ++
      [.closed p.opened]) : Ran step [0] p q := by
  have hnodup : ([(0, calls)].map Prod.fst).Nodup := List.nodup_singleton 0
  have hbounds : ∀ next ∈ [(0, calls)], ∃ bound,
      e.tasks[next.1]? = some bound ∧ next.2 ≤ bound := by
    intro next hnext
    obtain rfl : next = (0, calls) := List.mem_singleton.mp hnext
    exact ⟨bound, by rw [htasks]; rfl, hcalls⟩
  have hall : ∀ i < e.tasks.length, i ∈ [(0, calls)].map Prod.fst := by simp [htasks]
  obtain ⟨last, hreach, hstill, hbegun, hlogged⟩ :=
    e.exists_run hnodup hbounds (.inr hall) e.client
  refine ⟨e, last, [.opened p.opened role], hclient ▸ herrand, hreach, hstill, hbegun, ?_,
    by simp [isOpening], ?_⟩
  · rw [hlog, hlogged, howned, Errand.parting, hsends, hclient, List.append_assoc _ _ [_]]
    rfl
  · rw [if_pos howned, hclient]
    exact ⟨rfl, role, List.mem_singleton_self _⟩

/-- A step that is no request raises and writes nothing down, or returns and writes down what an
errand of it does that has come to its end. -/
theorem run_ran (w : World) (settings : Settings) {step : Step}
    (hstep : ∀ request, step ≠ .http request) :
    let after := w.run settings step
    (∃ fault, after.1 = .error fault ∧ after.2.pool.log = w.pool.log) ∨
      ∃ result order, after.1 = .ok result ∧ Ran step order w.pool after.2.pool ∧
        ∀ s, step.sending? = some s →
          order = (w.cluster.schedule s.deadline (w.cluster.prepare s.messages)).started := by
  intro after
  cases hsend : step.sending? with
  | some s =>
    obtain ⟨hafter, herror, hok⟩ := w.run_sending settings hsend
    simp only [after]
    rw [hafter]
    rcases w.sendAll_sent settings s with ⟨fault, hfault, hsent⟩ |
      ⟨outcomes, client, houtcomes, -, hsent⟩
    · exact .inl ⟨fault, herror fault hfault, hsent.log_none⟩
    · obtain ⟨result, hresult⟩ := hok outcomes houtcomes
      have hfits := w.cluster.schedule_fits s.deadline s.messages
      refine .inr ⟨result, _, hresult, ran_sending hsend hfits hsent, fun _ h => ?_⟩
      cases h
      rfl
  | none =>
    cases step with
    | http request => exact absurd rfl (hstep request)
    | produce step => cases hsend
    | batchProduce step => cases hsend
    | consume step =>
      have hconsumer := w.consumer_log settings step.bootstrapServers step.auth step.groupId
        step.autoOffsetReset
      simp only [after, run, runConsume]
      rcases hopen : w.consumer settings step.bootstrapServers step.auth step.groupId
        step.autoOffsetReset with ⟨outcome, w₁⟩
      rw [hopen] at hconsumer
      rcases hconsumer with ⟨fault, rfl, hlog⟩ | ⟨consumer, config, rfl, hlog⟩
      · exact .inl ⟨fault, rfl, hlog⟩
      · refine .inr ⟨_, _, rfl, ran_receiving (.consumer config) rfl rfl rfl rfl rfl
          (Nat.le_refl 1) ?_, fun _ hsome => (by cases hsome)⟩
        rw [← hlog]
        rfl
    | batchConsume step =>
      have hconsumer := w.consumer_log settings step.bootstrapServers step.auth step.groupId
        step.autoOffsetReset
      simp only [after, run, runBatchConsume]
      rcases hopen : w.consumer settings step.bootstrapServers step.auth step.groupId
        step.autoOffsetReset with ⟨outcome, w₁⟩
      rw [hopen] at hconsumer
      rcases hconsumer with ⟨fault, rfl, hlog⟩ | ⟨consumer, config, rfl, hlog⟩
      · exact .inl ⟨fault, rfl, hlog⟩
      · obtain ⟨calls, hle, hdrained⟩ := w₁.drain_log w.pool.opened consumer step.topic
          step.messageCount.toNat
        refine .inr ⟨_, _, rfl, ran_receiving (.consumer config) rfl rfl rfl rfl rfl hle ?_,
          fun _ hsome => (by cases hsome)⟩
        rw [← hlog, ← hdrained]
        rfl

end World

end Rehearsal
