import Rehearsal.Proofs.Execution.Laws
import Rehearsal.Proofs.Execution.Traffic
import Rehearsal.Proofs.Scenario.Runs

/-! Traffic through a scenario. Where every call goes through, the messages that the steps of a
scenario put on a topic are just those that a group which never polled it receives from then on,
each once, whatever steps send them and whatever steps ask for them. -/

namespace Rehearsal

variable {settings : Settings} {entries : List ExecutedStep} {group topic : String}

namespace World

variable {w w' w'' : World}

theorem Gains.refl (h : w.cluster.Calm) (topic : String) : w.Gains w topic [] :=
  ⟨h, by rw [List.append_nil], rfl⟩

theorem Gains.trans {first later : List Cargo} (h : w.Gains w' topic first)
    (k : w'.Gains w'' topic later) : w.Gains w'' topic (first ++ later) where
  calm := k.calm
  cargo := by
    rw [← List.append_assoc]
    exact k.cargo.trans (h.cargo.append_right later)
  positions := k.positions.trans h.positions

theorem Runs.gains (h : Runs settings w entries w') (hcalm : w.cluster.Calm)
    (hsends : ∀ entry ∈ entries, entry.step.variant ∈ Variant.produceSteps ∧
      entry.step.Finished entry.result) (topic : String) :
    w.Gains w' topic (entries.flatMap fun entry => entry.step.puts entry.result topic) := by
  induction h with
  | done w => exact .refl hcalm topic
  | idle _ cluster _ ih =>
    obtain ⟨hcalm', hcargo, hpositions⟩ := ih (by rwa [cluster]) hsends
    rw [cluster] at hcargo hpositions
    exact ⟨hcalm', hcargo, hpositions⟩
  | step ran _ ih =>
    obtain ⟨⟨hstep, hfinished⟩, hrest⟩ := List.forall_mem_cons.mp hsends
    have hone := run_gains hcalm hstep ran hfinished topic
    rw [List.flatMap_cons]
    exact hone.trans (ih hone.calm hrest)

theorem run_returns {step : Step} (hstep : step.Receives settings group topic)
    (hserves : w.Serves settings step.brokerAuth) :
    ∃ result, (w.run settings step).1 = .ok result := by
  cases step with
  | consume step =>
    obtain ⟨-, ⟨_, -, hnot, -⟩ | ⟨hok, -⟩⟩ := w.runConsume_cases settings step
    · exact absurd hserves hnot
    · exact ⟨_, hok⟩
  | batchConsume step =>
    obtain ⟨-, ⟨_, -, hnot, -⟩ | ⟨hok, -⟩⟩ := w.runBatchConsume_cases settings step
    · exact absurd hserves hnot
    · exact ⟨_, hok⟩
  | _ => exact hstep.elim

end World

/-- Steps that draw on a number of messages, one after another: each brings as many as it asks for,
or all that are left. -/
inductive Draws : Nat → List ExecutedStep → List (List Message) → Prop where
  | nil (left : Nat) : Draws left [] []
  | cons {left : Nat} {entry : ExecutedStep} {got : List Message} {entries : List ExecutedStep}
      {arrived : List (List Message)} (brings : entry.step.Brings entry.result got)
      (count : got.length = min entry.step.wanted left)
      (later : Draws (left - got.length) entries arrived) :
      Draws left (entry :: entries) (got :: arrived)

/-- How many messages steps ask for together. -/
def asked : List ExecutedStep → Nat
  | [] => 0
  | entry :: later => entry.step.wanted + asked later

theorem asked_append (earlier : List ExecutedStep) (entry : ExecutedStep) :
    asked (earlier ++ [entry]) = asked earlier + entry.step.wanted := by
  induction earlier with
  | nil => exact Nat.add_comm _ _
  | cons first rest ih => rw [List.cons_append, asked, ih, asked, Nat.add_assoc]

namespace Draws

variable {left : Nat} {arrived : List (List Message)}

theorem length (h : Draws left entries arrived) :
    arrived.flatten.length = min left (asked entries) := by
  induction h with
  | nil => simp [asked]
  | cons _ count _ ih =>
    rw [List.flatten_cons, List.length_append, ih]
    simp only [asked]
    omega

theorem returned (h : Draws left entries arrived) :
    ((entries.flatMap fun entry => entry.step.returned entry.result).map StepResult.place =
      arrived.flatten.map fun m => (.int m.partition, .int m.offset)) ∧
    ∀ expected, (∀ entry ∈ entries, entry.step.expected = expected) →
      (entries.flatMap fun entry => entry.step.returned entry.result).map StepResult.pair =
        arrived.flatten.map fun m => m.cargo.reading expected := by
  induction h with
  | nil => exact ⟨rfl, fun _ _ => rfl⟩
  | cons brings _ _ ih =>
    simp only [List.flatMap_cons, List.flatten_cons, List.map_append]
    refine ⟨by rw [brings.places, ih.1], fun expected hexpected => ?_⟩
    obtain ⟨hentry, hrest⟩ := List.forall_mem_cons.mp hexpected
    rw [brings.pairs, ih.2 expected hrest, hentry]

theorem enough (h : Draws left entries arrived) (hasked : asked entries ≤ left) :
    List.Forall₂ (fun entry got => got.length = entry.step.wanted ∧
      (entry.result.success = true ↔ ∀ m ∈ got, m.cargo.Readable entry.step.expected))
      entries arrived := by
  induction h with
  | nil => exact .nil
  | cons brings count _ ih =>
    simp only [asked] at hasked ih
    have hgot := count.trans (Nat.min_eq_left (by omega))
    exact .cons ⟨hgot, by rw [brings.success, and_iff_right hgot]⟩ (ih (by omega))

theorem last {earlier : List ExecutedStep} {entry : ExecutedStep}
    (h : Draws left (earlier ++ [entry]) arrived) :
    ∃ got, entry.step.Brings entry.result got ∧
      got.length = min entry.step.wanted (left - asked earlier) := by
  induction earlier generalizing left arrived with
  | nil =>
    cases h with
    | cons brings count _ => exact ⟨_, brings, count⟩
  | cons first rest ih =>
    cases h with
    | cons _ count later =>
      simp only [asked] at ih ⊢
      obtain ⟨got, hbrings, hlength⟩ := ih later
      exact ⟨got, hbrings, by omega⟩

theorem short {earlier : List ExecutedStep} {entry : ExecutedStep} {batch : BatchConsumeStep}
    (h : Draws left (earlier ++ [entry]) arrived) (hbatch : entry.step = .batchConsume batch)
    (hshort : ((left - asked earlier : Nat) : Int) < batch.messageCount) :
    entry.result.items.length = left - asked earlier ∧ entry.result.success = false ∧
      entry.result.error = some (.stepTimeout (.consumedFewer (left - asked earlier)
        batch.messageCount batch.topic batch.timeout)) ∧
      arrived.flatten.length = left := by
  obtain ⟨got, hbrings, hlength⟩ := h.last
  have hwanted : entry.step.wanted = batch.messageCount.toNat := by rw [hbatch, Step.wanted]
  have hgot : got.length = left - asked earlier := by
    rw [hlength, hwanted]
    exact Nat.min_eq_right (by omega)
  obtain ⟨hitems, herror⟩ := hbrings.short batch hbatch (by omega)
  rw [hgot] at hitems herror
  refine ⟨hitems, ?_, herror, ?_⟩
  · rw [← Bool.not_eq_true, hbrings.success]
    rintro ⟨hfull, -⟩
    omega
  · rw [h.length, asked_append]
    exact Nat.min_eq_left (by omega)

end Draws

/-- Steps that receive for a group draw on what the group has yet to receive. -/
theorem World.Runs.draws {w w' : World} (h : Runs settings w entries w')
    (hcalm : w.cluster.Calm)
    (hreceives : ∀ entry ∈ entries, entry.step.Receives settings group topic) :
    ∃ arrived, Draws (w.cluster.broker.unread group topic).length entries arrived ∧
      w.cluster.broker.Hands group topic arrived.flatten w'.cluster.broker := by
  induction h with
  | done w => exact ⟨[], .nil _, .refl _ _ _⟩
  | idle _ cluster _ ih =>
    rw [← cluster]
    exact ih (by rwa [cluster]) hreceives
  | step ran _ ih =>
    obtain ⟨hstep, hrest⟩ := List.forall_mem_cons.mp hreceives
    obtain ⟨hcalm', got, hhands, hcount, hbrings⟩ := run_brings hcalm hstep ran
    obtain ⟨arrived, hdraws, hlater⟩ := ih hcalm' hrest
    refine ⟨got :: arrived, .cons hbrings hcount ?_, hhands.trans hlater⟩
    have hlength := hhands.unread.length_eq
    rw [List.length_append] at hlength
    rwa [hlength, Nat.add_sub_cancel_left]

namespace Broker

variable {b c : Broker} {messages : List Message}

theorem Hands.offsets (h : b.Hands group topic messages c) (hb : b.Placed)
    (hapart : b.Apart group topic) (partition : Nat) :
    (messages.filter fun m => m.partition = partition).map (·.offset) =
      List.range (messages.countP fun m => m.partition = partition) := by
  have hlog := h.pending partition
  rw [hapart.pending] at hlog
  have hle : (messages.filter fun m => m.partition = partition).length ≤
      (b.log topic partition).length := by
    rw [hlog, List.length_append]
    exact Nat.le_add_right _ _
  have hextract : (b.log topic partition).extract 0
      (messages.filter fun m => m.partition = partition).length =
      messages.filter fun m => m.partition = partition := by
    rw [List.extract_eq_take_drop, List.drop_zero, Nat.sub_zero, hlog, List.take_left]
  have hoffsets : ((b.log topic partition).extract 0 _).map (·.offset) = _ := hb.offsets hle
  rwa [hextract, Nat.sub_zero, ← List.range_eq_range', ← List.countP_eq_length_filter] at hoffsets

theorem Hands.all (h : b.Hands group topic messages c) (hapart : b.Apart group topic)
    {stock : List Cargo} (hstock : (b.cargo topic).Perm stock)
    (hlength : messages.length = stock.length) : (messages.map Message.cargo).Perm stock := by
  have hcargo := h.unread.map Message.cargo
  rw [hapart.unread] at hcargo
  have hnone : c.unread group topic = [] := by
    have hcount := hcargo.length_eq.symm.trans hstock.length_eq
    simp only [List.length_map, List.length_append] at hcount
    exact List.length_eq_zero_iff.mp (by omega)
  rw [hnone, List.append_nil] at hcargo
  exact hcargo.symm.trans hstock

end Broker

namespace Engine

end Engine

end Rehearsal
