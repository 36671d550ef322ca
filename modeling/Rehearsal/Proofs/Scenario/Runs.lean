import Rehearsal.Proofs.Execution.Request
import Rehearsal.Proofs.Scenario.Construction
import Rehearsal.Scenario

/-! What calls on a scenario do to the world. The history they add lists the steps that ran against
the world one after another and returned; everything else that they do leaves the cluster alone. -/

namespace Rehearsal

namespace World

theorem run_kept (w : World) (settings : Settings) (step : Step) :
    w.Kept (w.run settings step).2 ∧ ∀ fault, (w.run settings step).1 = .error fault →
      (w.run settings step).2.cluster = w.cluster := by
  cases step with
  | http step =>
    obtain ⟨hkept, hcluster, -⟩ := w.runHttp_cases settings step
    exact ⟨hkept, fun _ _ => hcluster⟩
  | produce step =>
    obtain ⟨hkept, ⟨_, -, hcluster⟩ | ⟨_, -, hok, -⟩⟩ := w.runProduce_cases settings step
    · exact ⟨hkept, fun _ _ => hcluster⟩
    · exact ⟨hkept, fun fault herror => by cases hok.symm.trans herror⟩
  | consume step =>
    obtain ⟨hkept, ⟨_, -, -, hcluster⟩ | ⟨hok, -⟩⟩ := w.runConsume_cases settings step
    · exact ⟨hkept, fun _ _ => hcluster⟩
    · exact ⟨hkept, fun fault herror => by cases hok.symm.trans herror⟩
  | batchProduce step =>
    obtain ⟨hkept, ⟨_, -, hcluster⟩ | ⟨_, -, hok, -⟩⟩ := w.runBatchProduce_cases settings step
    · exact ⟨hkept, fun _ _ => hcluster⟩
    · exact ⟨hkept, fun fault herror => by cases hok.symm.trans herror⟩
  | batchConsume step =>
    obtain ⟨hkept, ⟨_, -, -, hcluster⟩ | ⟨hok, -⟩⟩ := w.runBatchConsume_cases settings step
    · exact ⟨hkept, fun _ _ => hcluster⟩
    · exact ⟨hkept, fun fault herror => by cases hok.symm.trans herror⟩

/-- The steps that ran one after another and returned, while else only the rest of the world
changed. -/
inductive Runs (settings : Settings) : World → List ExecutedStep → World → Prop where
  | done (w : World) : Runs settings w [] w
  | idle {w w' last : World} {entries : List ExecutedStep} (kept : w.Kept w')
      (cluster : w'.cluster = w.cluster) (later : Runs settings w' entries last) :
      Runs settings w entries last
  | step {w w' last : World} {step : Step} {result : StepResult} {entries : List ExecutedStep}
      (ran : w.run settings step = (.ok result, w')) (later : Runs settings w' entries last) :
      Runs settings w (⟨step, result⟩ :: entries) last

variable {settings : Settings} {w w' w'' : World} {entries more : List ExecutedStep}

theorem Runs.append (h : Runs settings w entries w') (k : Runs settings w' more w'') :
    Runs settings w (entries ++ more) w'' := by
  induction h with
  | done => exact k
  | idle kept cluster _ ih => exact .idle kept cluster (ih k)
  | step ran _ ih => exact .step ran (ih k)

theorem Runs.kept (h : Runs settings w entries w') : w.Kept w' := by
  induction h with
  | done w => exact .refl w
  | idle kept _ _ ih => exact kept.trans ih
  | step ran _ ih =>
    rename_i w _ _ step result _ _
    have hkept := (w.run_kept settings step).1
    rw [ran] at hkept
    exact hkept.trans ih

end World

namespace Engine

/-- What calls add to a history, and what ran of it. -/
structure Ran (e : Engine) (w : World) (e' : Engine) (w' : World) : Prop where
  settings : e'.settings = e.settings
  runs : ∃ entries, e'.history = e.history ++ entries ∧ World.Runs e.settings w entries w'

variable {e e' e'' : Engine} {w w' w'' : World}

theorem Ran.unchanged (w : World) (hs : e'.settings = e.settings) (hh : e'.history = e.history) :
    Ran e w e' w := ⟨hs, [], by rw [hh, List.append_nil], .done w⟩

theorem Ran.trans (h : Ran e w e' w') (k : Ran e' w' e'' w'') : Ran e w e'' w'' := by
  obtain ⟨hs, entries, hh, hruns⟩ := h
  obtain ⟨hs', more, hh', hruns'⟩ := k
  rw [hs] at hruns' hs'
  exact ⟨hs', entries ++ more, by rw [hh', hh, List.append_assoc], hruns.append hruns'⟩

theorem execute_ran (e : Engine) (w : World) :
    let after := e.execute World.runner w
    Ran e w after.2.1 after.2.2 := by
  simp only [execute]
  split
  · exact .unchanged w rfl rfl
  · split <;> exact .unchanged w rfl rfl
  · split
    · exact .unchanged w rfl rfl
    · rename_i step _
      obtain ⟨hkept, hraised⟩ := w.run_kept e.settings step
      simp only [World.runner]
      rcases hrun : w.run e.settings step with ⟨fault | result, w'⟩
      · rw [hrun] at hkept hraised
        exact ⟨rfl, [], (List.append_nil _).symm, .idle hkept (hraised fault rfl) (.done w')⟩
      · exact ⟨rfl, [⟨step, result⟩], rfl, .step hrun (.done w')⟩

theorem advance_ran (e : Engine) (w : World) :
    let after := e.advance World.runner w
    Ran e w after.2.1 after.2.2 := by
  have hrun := e.execute_ran w
  simp only [advance]
  split
  · split
    · rename_i hr
      rwa [hr] at hrun
    · rename_i hr
      rw [hr] at hrun
      exact hrun.trans (.unchanged _ rfl rfl)
  · exact .unchanged w rfl rfl

theorem saveStep_ran (e : Engine) (w : World) (name : String) :
    let after := e.saveStep World.runner name w
    Ran e w after.2.1 after.2.2 := by
  have hrun := e.execute_ran w
  simp only [saveStep]
  split
  · exact .unchanged w rfl rfl
  · split
    · rename_i hr
      rwa [hr] at hrun
    · rename_i hr
      rw [hr] at hrun
      split
      · split
        · rename_i hs
          obtain ⟨steps, -, h'⟩ := bind_eq_ok.mp hs
          cases h'
          exact hrun.trans (.unchanged _ rfl rfl)
        · exact hrun
      · exact hrun

theorem call_ran (e : Engine) (w : World) (c : Call) :
    let after := e.call World.runner w c
    Ran e w after.2.1 after.2.2 := by
  cases c with
  | construct c =>
    simp only [call]
    split
    · rename_i hc
      obtain ⟨-, current, properties, rfl⟩ := construct_redescribes hc
      exact .unchanged w rfl rfl
    · exact .unchanged w rfl rfl
  | execute =>
    have hrun := e.execute_ran w
    simp only [call]
    split <;> rename_i hr <;> rwa [hr] at hrun
  | advance =>
    have hrun := e.advance_ran w
    simp only [call]
    split <;> rename_i hr <;> rwa [hr] at hrun
  | saveStep name =>
    have hrun := e.saveStep_ran w name
    simp only [call]
    split <;> rename_i hr <;> rwa [hr] at hrun
  | idle => exact .unchanged w rfl rfl

theorem callAll_ran (e : Engine) (w : World) (calls : List Call) :
    let after := e.callAll World.runner w calls
    Ran e w after.1 after.2 := by
  induction calls generalizing e w with
  | nil => exact .unchanged w rfl rfl
  | cons c rest ih => exact (e.call_ran w c).trans (ih _ _)

theorem call_execute_ok {step : Step} (hstage : e.stage = .building)
    (hcurrent : e.current = some step) (h : ∃ result, (w.run e.settings step).1 = .ok result) :
    ∃ result, (e.call World.runner w .execute).1 = .ok (some result) := by
  obtain ⟨result, hresult⟩ := h
  refine ⟨result, ?_⟩
  simp only [call, execute, hstage, hcurrent, World.runner, hresult]

theorem callAll_append {σ : Type} (run : Runner σ) (e : Engine) (world : σ)
    (before after : List Call) :
    e.callAll run world (before ++ after) =
      (e.callAll run world before).1.callAll run (e.callAll run world before).2 after := by
  induction before generalizing e world with
  | nil => rfl
  | cons c rest ih => exact ih _ _

/-- The history that calls add is what ran. -/
theorem callAll_runs {calls : List Call} {entries : List ExecutedStep}
    (h : (e.callAll World.runner w calls).1.history = e.history ++ entries) :
    World.Runs e.settings w entries (e.callAll World.runner w calls).2 := by
  obtain ⟨-, found, hfound, hruns⟩ := e.callAll_ran w calls
  rwa [List.append_cancel_left (h.symm.trans hfound)]

end Engine

end Rehearsal
