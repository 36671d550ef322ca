import Mathlib.Data.List.Perm.Basic
import Rehearsal.Broker.Cluster
import Rehearsal.Proofs.Broker.Stored
import Rehearsal.Proofs.Keyed

/-! Sends that workers run in some order. Each send that runs does to the broker what it would do
alone at its turn, so what is kept in the end is what the single sends kept, whatever the order. A
deadline only hides what comes of the sends that run past it. -/

namespace Rehearsal

/-- What is kept of a send under a topic, by its outcome. -/
def Send.keeps (send : Send) (topic : String) (outcome : SendOutcome) : List Cargo :=
  match send.message, outcome with
  | .ok out, .delivered report => report.keeps out topic
  | _, _ => []

/-- Whether a send leaves a broker persisting that persists. -/
def Send.Steady (send : Send) : Prop :=
  ∀ status, send.disturbance = some (.confirms status) → status = .persisted

structure Schedule.Fits (s : Schedule) (first last : Nat) : Prop where
  nodup : s.started.Nodup
  within : ∀ i ∈ s.started, first ≤ i ∧ i < last

namespace Schedule

variable {s : Schedule} {first last : Nat}

theorem fits_empty : Fits ⟨[], []⟩ first last := ⟨.nil, nofun⟩

theorem Fits.from_succ (h : s.Fits (first + 1) last) : s.Fits first last :=
  ⟨h.nodup, fun i hi => ⟨Nat.le_of_succ_le (h.within i hi).1, (h.within i hi).2⟩⟩

theorem Fits.not_mem (h : s.Fits (first + 1) last) : first ∉ s.started := fun hi =>
  absurd (h.within first hi).1 (Nat.not_succ_le_self first)

theorem Fits.addPrompt (h : s.Fits (first + 1) last) (hl : first < last) :
    (s.addPrompt first).Fits first last := by
  refine ⟨?_, ?_⟩
  · exact List.nodup_cons.mpr ⟨h.not_mem, h.nodup⟩
  · exact List.forall_mem_cons.mpr ⟨⟨Nat.le_refl _, hl⟩, h.from_succ.within⟩

theorem Fits.addTardy (h : s.Fits (first + 1) last) (hl : first < last) :
    (s.addTardy first).Fits first last := by
  have hperm : (s.addTardy first).started.Perm (first :: s.started) := List.perm_middle
  refine ⟨hperm.nodup_iff.mpr (List.nodup_cons.mpr ⟨h.not_mem, h.nodup⟩), fun i hi => ?_⟩
  rcases List.mem_cons.mp (hperm.mem_iff.mp hi) with rfl | hi
  · exact ⟨Nat.le_refl _, hl⟩
  · exact h.from_succ.within i hi

theorem plan_fits (deadline : Binary64) (crew : List Binary64) (first : Nat)
    (durations : List (Option Binary64)) :
    (plan deadline crew first durations).Fits first (first + durations.length) := by
  induction durations generalizing crew first with
  | nil => exact fits_empty
  | cons duration rest ih =>
    have hlast : first + (duration :: rest).length = first + 1 + rest.length := by
      rw [List.length_cons]
      omega
    have hlt : first < first + 1 + rest.length := by omega
    rw [hlast]
    simp only [plan]
    split
    · exact fits_empty
    · rename_i free others _
      split
      · exact fits_empty
      · split
        · exact (ih others (first + 1)).addTardy hlt
        · rename_i seconds
          split
          · exact (ih ((free + seconds) :: others) (first + 1)).addPrompt hlt
          · exact (ih others (first + 1)).addTardy hlt

end Schedule

namespace Cluster

variable {c : Cluster} {sends : List Send} {topic : String} {i : Nat}

/-- All that a send can do: nothing to the cluster, or deliver its message to a broker that confirms
as before or as the script says. -/
theorem perform_cases (c : Cluster) (send : Send) :
    (∃ outcome, c.perform send = (outcome, c) ∧ ∀ report, outcome ≠ .delivered report) ∨
    ∃ out status, send.message = .ok out ∧
      (send.disturbance = none ∧ status = c.broker.persistence ∨
        send.disturbance = some (.confirms status)) ∧
      c.perform send = (c.confirm status).deliver out := by
  unfold perform
  split
  · exact .inl ⟨_, rfl, nofun⟩
  · exact .inl ⟨_, rfl, nofun⟩
  · exact .inl ⟨_, rfl, nofun⟩
  · rename_i out status hmessage hdisturbance
    exact .inr ⟨out, status, hmessage, .inr hdisturbance, rfl⟩
  · rename_i out hmessage hdisturbance
    exact .inr ⟨out, _, hmessage, .inl ⟨hdisturbance, rfl⟩, rfl⟩

/-- All that a delivery can do: the broker takes the message or refuses it. -/
theorem deliver_cases (c : Cluster) (out : Outgoing) :
    (c.deliver out).2 = { c with broker := (c.broker.append out).2 } ∧
    ((∃ why, (c.deliver out).1 = .raised why ∧
      ∀ topic, (c.deliver out).2.broker.cargo topic = c.broker.cargo topic) ∨
    (∃ report, (c.deliver out).1 = .delivered report ∧ report.status = c.broker.persistence ∧
      ∀ topic, ((c.deliver out).2.broker.cargo topic).Perm
        (c.broker.cargo topic ++ report.keeps out topic))) := by
  unfold deliver
  obtain ⟨-, ⟨fault, hfault, hcargo⟩ | ⟨report, hreport, hstatus, hcargo⟩⟩ :=
    c.broker.append_cases out
  · rcases happend : c.broker.append out with ⟨outcome, broker⟩
    rw [happend] at hfault hcargo
    cases hfault
    exact ⟨rfl, .inl ⟨fault.message, rfl, hcargo⟩⟩
  · rcases happend : c.broker.append out with ⟨outcome, broker⟩
    rw [happend] at hreport hcargo
    cases hreport
    exact ⟨rfl, .inr ⟨report, rfl, hstatus, hcargo⟩⟩

theorem cargo_confirm (c : Cluster) (status : DeliveryStatus) (topic : String) :
    (c.confirm status).broker.cargo topic = c.broker.cargo topic := rfl

theorem perform_cargo (c : Cluster) (send : Send) (topic : String) :
    ((c.perform send).2.broker.cargo topic).Perm
      (c.broker.cargo topic ++ send.keeps topic (c.perform send).1) := by
  rcases c.perform_cases send with ⟨outcome, hperform, hnot⟩ | ⟨out, status, hmessage, -, hperform⟩
  · have hkeeps : send.keeps topic outcome = [] := by
      cases hm : send.message <;> cases outcome <;> simp_all [Send.keeps]
    rw [hperform, hkeeps, List.append_nil]
  · rw [hperform]
    obtain ⟨-, ⟨why, hwhy, hcargo⟩ | ⟨report, hreport, -, hcargo⟩⟩ :=
      (c.confirm status).deliver_cases out
    · rw [hwhy, hcargo, cargo_confirm]
      simp [Send.keeps, hmessage]
    · rw [hreport]
      simpa only [Send.keeps, hmessage, cargo_confirm] using hcargo topic

theorem perform_scripts (c : Cluster) (send : Send) :
    (c.perform send).2 = { c with broker := (c.perform send).2.broker } := by
  rcases c.perform_cases send with ⟨outcome, hperform, -⟩ | ⟨out, status, -, -, hperform⟩
  · rw [hperform]
  · rw [hperform, ((c.confirm status).deliver_cases out).1]
    rfl

/-- What confirming and taking messages keep true of a broker, sends do. -/
theorem perform_holds {P : Broker → Prop}
    (hconfirm : ∀ b status, P b → P { b with persistence := status })
    (happend : ∀ b out, P b → P (b.append out).2) (h : P c.broker) (send : Send) :
    P (c.perform send).2.broker := by
  rcases c.perform_cases send with ⟨outcome, hperform, -⟩ | ⟨out, status, -, -, hperform⟩
  · rw [hperform]
    exact h
  · rw [hperform, ((c.confirm status).deliver_cases out).1]
    exact happend _ out (hconfirm _ status h)

theorem perform_persists (hb : c.broker.persistence = .persisted) {send : Send}
    (hsend : send.Steady) :
    (c.perform send).2.broker.persistence = .persisted ∧
      ∀ report, (c.perform send).1 = .delivered report → report.status = .persisted := by
  rcases c.perform_cases send with ⟨outcome, hperform, hnot⟩ |
    ⟨out, status, -, hstatus, hperform⟩
  · rw [hperform]
    exact ⟨hb, fun report h => absurd h (hnot report)⟩
  · have hp : status = .persisted := by
      rcases hstatus with ⟨-, h⟩ | h
      · exact h.trans hb
      · exact hsend status h
    subst hp
    rw [hperform]
    have hcases := (c.confirm .persisted).deliver_cases out
    refine ⟨?_, fun report hreport => ?_⟩
    · rw [hcases.1]
      exact ((c.confirm .persisted).broker.append_cases out).1
    · rcases hcases.2 with ⟨why, hwhy, -⟩ | ⟨other, hother, hstatus, -⟩
      · rw [hwhy] at hreport
        cases hreport
      · rw [hother] at hreport
        cases hreport
        exact hstatus

/-! Sends in an order. -/

theorem performAll_append (c : Cluster) (sends : List Send) (before after : List Nat) :
    c.performAll sends (before ++ after) =
      ((c.performAll sends before).1 ++ ((c.performAll sends before).2.performAll sends after).1,
        ((c.performAll sends before).2.performAll sends after).2) := by
  induction before generalizing c with
  | nil => rfl
  | cons i rest ih =>
    simp only [List.cons_append, performAll]
    cases sends[i]? with
    | none => exact ih c
    | some send => simp only [ih, List.cons_append]

theorem performAll_started (c : Cluster) (sends : List Send) (order : List Nat) :
    (c.performAll sends order).1.map (·.1) = order.filter fun i => (sends[i]?).isSome := by
  induction order generalizing c with
  | nil => rfl
  | cons i rest ih =>
    simp only [performAll]
    cases hi : sends[i]? with
    | none => simp [hi, ih]
    | some send => simp [hi, ih]

theorem outcome_of_not_mem (c : Cluster) {order : List Nat} (hi : i ∉ order) :
    Keyed.get? (c.performAll sends order).1 i = none := by
  apply Keyed.get?_eq_none
  rw [performAll_started]
  exact fun h => hi (List.mem_filter.mp h).1

theorem outcome_own (c : Cluster) {before after : List Nat} (hi : i ∉ before) {send : Send}
    (hsend : sends[i]? = some send) :
    Keyed.get? (c.performAll sends (before ++ i :: after)).1 i =
      some ((c.performAll sends before).2.perform send).1 := by
  rw [performAll_append, Keyed.get?_append, outcome_of_not_mem c hi]
  simp [performAll, hsend, Keyed.get?]

def keptOf (sends : List Send) (topic : String) (outcome : SendOutcome) (i : Nat) : List Cargo :=
  (sends[i]?).elim [] fun send => send.keeps topic outcome

theorem performAll_cargo (c : Cluster) (sends : List Send) {order : List Nat} (hd : order.Nodup)
    (topic : String) :
    let run := c.performAll sends order
    (run.2.broker.cargo topic).Perm (c.broker.cargo topic ++ order.flatMap fun i =>
      keptOf sends topic ((Keyed.get? run.1 i).getD .late) i) := by
  induction order generalizing c with
  | nil => simp [performAll]
  | cons i rest ih =>
    obtain ⟨hi, hrest⟩ := List.nodup_cons.mp hd
    cases hsend : sends[i]? with
    | none =>
      have hnone : ∀ outcome, keptOf sends topic outcome i = [] := by
        intro outcome
        simp [keptOf, hsend]
      simpa only [performAll, hsend, List.flatMap_cons, hnone, List.nil_append] using ih c hrest
    | some send =>
      have hown : ∀ outcome, keptOf sends topic outcome i = send.keeps topic outcome := by
        intro outcome
        simp [keptOf, hsend]
      simp only [performAll, hsend, List.flatMap_cons, Keyed.get?, if_true, Option.getD_some, hown]
      refine (ih _ hrest).trans (((c.perform_cargo send topic).append_right _).trans ?_)
      -- the outcomes of the other sends are looked up past that of this one
      have hothers : ∀ j ∈ rest, i ≠ j := fun j hj h => hi (h ▸ hj)
      rw [List.append_assoc]
      refine ((List.Perm.flatMap_left rest fun j hj => ?_).append_left _).append_left _
      rw [if_neg (hothers j hj)]

theorem performAll_scripts (c : Cluster) (sends : List Send) (order : List Nat) :
    (c.performAll sends order).2 = { c with broker := (c.performAll sends order).2.broker } := by
  induction order generalizing c with
  | nil => rfl
  | cons i rest ih =>
    simp only [performAll]
    cases sends[i]? with
    | none => exact ih c
    | some send =>
      dsimp only
      rw [ih (c.perform send).2, perform_scripts c send]

theorem performAll_holds {P : Broker → Prop}
    (hconfirm : ∀ b status, P b → P { b with persistence := status })
    (happend : ∀ b out, P b → P (b.append out).2) (h : P c.broker) (sends : List Send)
    (order : List Nat) : P (c.performAll sends order).2.broker := by
  induction order generalizing c with
  | nil => exact h
  | cons i rest ih =>
    simp only [performAll]
    cases sends[i]? with
    | none => exact ih h
    | some send => exact ih (perform_holds hconfirm happend h send)

theorem performAll_persists (hb : c.broker.persistence = .persisted)
    (hsends : ∀ send ∈ sends, send.Steady) (order : List Nat) :
    (c.performAll sends order).2.broker.persistence = .persisted ∧
      ∀ i report, Keyed.get? (c.performAll sends order).1 i = some (.delivered report) →
        report.status = .persisted := by
  induction order generalizing c with
  | nil => exact ⟨hb, nofun⟩
  | cons j rest ih =>
    simp only [performAll]
    cases hsend : sends[j]? with
    | none => exact ih hb
    | some send =>
      have hone := perform_persists hb (hsends send (List.mem_of_getElem? hsend))
      refine ⟨(ih hone.1).1, fun i report h => ?_⟩
      simp only [Keyed.get?] at h
      split at h
      · exact hone.2 report (Option.some.inj h)
      · exact (ih hone.1).2 i report h

/-- Runs sends in an order, of which some are done by a deadline: what each came to by then, and the
cluster in the end. -/
def performIn (c : Cluster) (sends : List Send) (order : List Nat) (done : Nat → Bool) :
    (Nat → SendOutcome) × Cluster :=
  let run := c.performAll sends order
  (fun i => if done i then (Keyed.get? run.1 i).getD .late else .late, run.2)

theorem performBy_eq (c : Cluster) (sends : List Send) {schedule : Schedule}
    (hd : schedule.started.Nodup) :
    c.performBy sends schedule =
      c.performIn sends schedule.started fun i => schedule.prompt.contains i := by
  simp only [performBy, performIn, Schedule.started, performAll_append, Keyed.get?_append]
  refine Prod.ext (funext fun i => ?_) rfl
  by_cases hi : i ∈ schedule.prompt
  · have htardy : i ∉ schedule.tardy := fun h => (List.nodup_append.mp hd).2.2 i hi i h rfl
    simp [hi, outcome_of_not_mem _ htardy]
  · simp [hi, outcome_of_not_mem c hi]

theorem performIn_own (c : Cluster) {before after : List Nat} {done : Nat → Bool}
    (hd : (before ++ i :: after).Nodup) (hdone : done i) {send : Send}
    (hsend : sends[i]? = some send) :
    (c.performIn sends (before ++ i :: after) done).1 i =
      ((c.performAll sends before).2.perform send).1 := by
  have hi : i ∉ before := fun h =>
    (List.nodup_append.mp hd).2.2 i h i List.mem_cons_self rfl
  simp only [performIn, hdone, if_true, outcome_own c hi hsend, Option.getD_some]

theorem performIn_late (c : Cluster) {order : List Nat} {done : Nat → Bool}
    (h : i ∉ order ∨ done i = false) : (c.performIn sends order done).1 i = .late := by
  rcases h with h | h
  · simp [performIn, outcome_of_not_mem c h]
  · simp [performIn, h]

theorem performBy_single (c : Cluster) (send : Send) {schedule : Schedule}
    (h : schedule.Fits 0 1) :
    (c.performBy [send] schedule).1 0 = .late ∨
      (c.performBy [send] schedule).1 0 = (c.perform send).1 := by
  rw [performBy_eq c _ h.nodup]
  by_cases hdone : 0 ∈ schedule.started ∧ schedule.prompt.contains 0 = true
  · obtain ⟨before, after, hstarted⟩ := List.append_of_mem hdone.1
    have hnodup := h.nodup
    rw [hstarted] at hnodup ⊢
    -- a send that ran before would have the number of this one
    have hbefore : before = [] := by
      apply List.eq_nil_iff_forall_not_mem.mpr
      intro i hi
      have hzero : i = 0 := by
        have hwithin := h.within i (by simp [hstarted, hi])
        omega
      exact (List.nodup_append.mp hnodup).2.2 i hi 0 List.mem_cons_self hzero
    subst hbefore
    exact .inr (performIn_own c hnodup hdone.2 (show [send][0]? = some send from rfl))
  · refine .inl (performIn_late c ?_)
    simpa only [not_and_or, Bool.not_eq_true] using hdone

/-- If every send is done in time, what is kept is what their outcomes say. -/
theorem performIn_cargo (c : Cluster) {order : List Nat} {done : Nat → Bool} {count : Nat}
    (hd : order.Nodup) (hlt : ∀ i ∈ order, i < count)
    (hdone : ∀ i < count, (c.performIn sends order done).1 i ≠ .late) (topic : String) :
    ((c.performIn sends order done).2.broker.cargo topic).Perm
      (c.broker.cargo topic ++ (List.range count).flatMap fun i =>
        keptOf sends topic ((c.performIn sends order done).1 i) i) := by
  have hall : order.Perm (List.range count) := by
    rw [List.perm_ext_iff_of_nodup hd List.nodup_range]
    intro i
    rw [List.mem_range]
    refine ⟨hlt i, fun hi => ?_⟩
    by_contra hnot
    exact hdone i hi (performIn_late c (.inl hnot))
  refine (c.performAll_cargo sends hd topic).trans (List.Perm.append_left _ ?_)
  refine hall.flatMap fun i hi => List.Perm.of_eq ?_
  have hi : done i = true := by
    by_contra hnot
    exact hdone i (hlt i hi) (performIn_late c (.inr (by simpa using hnot)))
  simp [performIn, hi]

theorem outcome_from (c : Cluster) {order : List Nat} {outcome : SendOutcome}
    (h : Keyed.get? (c.performAll sends order).1 i = some outcome) :
    ∃ send, sends[i]? = some send ∧ ∃ d : Cluster, (d.perform send).1 = outcome := by
  induction order generalizing c with
  | nil => cases h
  | cons j rest ih =>
    simp only [performAll] at h
    cases hsend : sends[j]? with
    | none =>
      rw [hsend] at h
      exact ih c h
    | some send =>
      simp only [hsend, Keyed.get?] at h
      split at h
      · subst i
        exact ⟨send, hsend, c, Option.some.inj h⟩
      · exact ih _ h

theorem performIn_delivered (c : Cluster) {order : List Nat} {done : Nat → Bool}
    {report : DeliveryReport} (h : (c.performIn sends order done).1 i = .delivered report) :
    Keyed.get? (c.performAll sends order).1 i = some (.delivered report) ∧
      ∃ send, sends[i]? = some send ∧ ∃ out, send.message = .ok out := by
  have hfound : Keyed.get? (c.performAll sends order).1 i = some (.delivered report) := by
    simp only [performIn] at h
    split at h
    · cases hget : Keyed.get? (c.performAll sends order).1 i with
      | none => simp [hget] at h
      | some outcome => simpa [hget] using h
    · cases h
  obtain ⟨send, hsend, d, hperform⟩ := outcome_from c hfound
  refine ⟨hfound, send, hsend, ?_⟩
  rcases d.perform_cases send with ⟨outcome, hown, hnot⟩ | ⟨out, -, hmessage, -, -⟩
  · rw [hown] at hperform
    exact absurd hperform (hnot report)
  · exact ⟨out, hmessage⟩

end Cluster

namespace Send

theorem assign_messages (messages : List (Except Fault Outgoing))
    (script : List (Option Disturbance)) : (assign messages script).map (·.message) = messages := by
  induction messages generalizing script with
  | nil => rfl
  | cons message rest ih =>
    cases message with
    | error fault => simp [assign, ih]
    | ok out => cases script <;> simp [assign, ih]

theorem assign_undisturbed {messages : List (Except Fault Outgoing)}
    {script : List (Option Disturbance)} (h : ∀ d ∈ script, d = none) :
    ∀ send ∈ assign messages script, send.disturbance = none := by
  induction messages generalizing script with
  | nil => simp [assign]
  | cons message rest ih =>
    cases message with
    | error fault => exact List.forall_mem_cons.mpr ⟨rfl, ih h⟩
    | ok out =>
      cases script with
      | nil => exact List.forall_mem_cons.mpr ⟨rfl, ih h⟩
      | cons next script =>
        obtain ⟨hnext, hrest⟩ := List.forall_mem_cons.mp h
        exact List.forall_mem_cons.mpr ⟨hnext, ih hrest⟩

end Send

namespace Cluster

theorem schedule_fits (c : Cluster) (deadline : Binary64)
    (messages : List (Except Fault Outgoing)) :
    (c.schedule deadline (c.prepare messages)).Fits 0 messages.length := by
  have hlength : (c.prepare messages).length = messages.length := by
    rw [prepare, ← List.length_map Send.message, Send.assign_messages]
  have hplan := Schedule.plan_fits deadline (List.replicate c.crew (Binary64.ofNat 0)) 0
    ((c.prepare messages).map (Send.duration c.delay))
  rwa [List.length_map, hlength, Nat.zero_add] at hplan

end Cluster

end Rehearsal
