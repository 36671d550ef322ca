import Rehearsal.Proofs.Execution.Laws
import Rehearsal.Proofs.Scenario.Pending

/-! Calls that fail. They leave the scenario as it was, whatever the cause, so that it can be mended
and the call made again. Saving under a name that is none is the exception: the step runs first, and
stays run. -/

namespace Rehearsal.Engine

variable {σ : Type} {act : Executor σ} {e e' : Engine} {world world' : σ} {fault : Fault}
  {step : Step} {result : StepResult} {name : String}

theorem unrun?_eq_some : e.unrun? = some step ↔ e.stage = .building ∧ e.current = some step := by
  rw [unrun?, Option.ite_none_right_eq_some]

/-- Executing fails and changes nothing, or answers the result that is there, or runs the step that
has not run. -/
theorem execute_outcome (act : Executor σ) (e : Engine) (world : σ) :
    (∃ fault world', e.execute act.runner world = (.error fault, e, world')) ∨
    (∃ result, e.stage = .completed ∧ e.result = some result ∧
      e.execute act.runner world = (.ok result, e, world)) ∨
    ∃ step result world', e.unrun? = some step ∧ act e.settings step world = (.ok result, world') ∧
      e.execute act.runner world = (.ok result, e.finish step (.ok result), world') := by
  cases hs : e.stage with
  | executing => exact .inl ⟨_, world, by simp only [execute, hs]; rfl⟩
  | completed =>
    cases hr : e.result with
    | none => exact .inl ⟨_, world, by simp only [execute, hs, hr]; rfl⟩
    | some result => exact .inr (.inl ⟨result, rfl, rfl, by simp only [execute, hs, hr]⟩)
  | building =>
    cases hc : e.current with
    | none => exact .inl ⟨_, world, by simp only [execute, hs, hc]; rfl⟩
    | some step =>
      rw [execute_building hs hc]
      rcases hact : act e.settings step world with ⟨fault | result, world'⟩
      · -- the run began in a scenario that was building, and the failure puts it back there
        refine .inl ⟨fault, world', ?_⟩
        obtain ⟨settings, stage, current, result, history, context⟩ := e
        subst hs
        rfl
      · exact .inr (.inr ⟨step, result, world', unrun?_eq_some.mpr ⟨hs, hc⟩, hact, rfl⟩)

/-- The scenario with its step saved under a name. -/
def kept (e : Engine) (name : String) (step : Step) (result : StepResult) : Engine :=
  { e with context := { e.context with
      steps := ⟨Keyed.put e.context.steps.entries (Text.lower name) (name, ⟨step, result⟩)⟩ } }

theorem saved_eq (e : Engine) (name : String) (step : Step) (result : StepResult) :
    e.saved name step result =
      if Text.isBlankText name then .error (.configuration .unnamedStep)
      else .ok (e.kept name step result) := by
  rw [saved, SavedSteps.save]
  split <;> rfl

theorem saveStep_of_execute (hcurrent : e.current = some step)
    (hexecute : e.execute act.runner world = (.ok result, e', world'))
    (hcurrent' : e'.current = some step) (hresult : e'.result = some result) (name : String) :
    e.call act.runner world (.saveStep name) =
      if Text.isBlankText name then (.error (.configuration .unnamedStep), e', world')
      else (.ok none, e'.kept name step result, world') := by
  simp only [call, saveStep, hcurrent, hexecute, hcurrent', hresult, saved_eq, Option.isNone_some,
    Bool.false_eq_true, if_false]
  cases Text.isBlankText name <;> rfl

/-- Saving a step that has not run runs it. -/
theorem saveStep_unrun (hunrun : e.unrun? = some step)
    (hact : act e.settings step world = (.ok result, world')) (name : String) :
    let ran := e.finish step (.ok result)
    e.call act.runner world (.saveStep name) =
      if Text.isBlankText name then (.error (.configuration .unnamedStep), ran, world')
      else (.ok none, ran.kept name step result, world') := by
  obtain ⟨hs, hc⟩ := unrun?_eq_some.mp hunrun
  have hexecute : e.execute act.runner world =
      (.ok result, e.finish step (.ok result), world') := by
    rw [execute_building hs hc, hact]
    rfl
  exact saveStep_of_execute hc hexecute hc rfl name

theorem saveStep_completed (hs : e.stage = .completed) (hc : e.current = some step)
    (hr : e.result = some result) (name : String) :
    e.call act.runner world (.saveStep name) =
      if Text.isBlankText name then (.error (.configuration .unnamedStep), e, world)
      else (.ok none, e.kept name step result, world) :=
  saveStep_of_execute hc (by simp only [execute, hs, hr]) hc hr name

/-- Whether a call runs a step to save it under a name that is none. -/
def RunsUnnamed (act : Executor σ) (e : Engine) (world : σ) (c : Call) : Prop :=
  ∃ name step, c = .saveStep name ∧ Text.isBlankText name = true ∧
    e.unrun? = some step ∧ (act e.settings step world).1.isOk

theorem failed_advance (h : (e.call act.runner world .advance).1 = .error fault) :
    (e.call act.runner world .advance).2.1 = e := by
  by_cases hunrun : e.stage = .building ∧ e.current.isSome
  · simp only [call, advance, if_pos hunrun] at h ⊢
    obtain ⟨found, last, hexecute⟩ | ⟨found, -, -, hexecute⟩ | ⟨step, found, last, -, -, hexecute⟩ :=
      execute_outcome act e world
    · rw [hexecute]
    · rw [hexecute] at h
      cases h
    · rw [hexecute] at h
      cases h
  · simp only [call, advance, if_neg hunrun] at h
    cases h

theorem failed_saveStep (h : (e.call act.runner world (.saveStep name)).1 = .error fault)
    (hnamed : ¬ e.RunsUnnamed act world (.saveStep name)) :
    (e.call act.runner world (.saveStep name)).2.1 = e := by
  cases hc : e.current with
  | none => simp [call, saveStep, hc]
  | some step =>
    obtain ⟨found, last, hexecute⟩ | ⟨found, hs, hr, -⟩ | ⟨last, found, world', hunrun, hact, -⟩ :=
      execute_outcome act e world
    · simp [call, saveStep, hc, hexecute]
    · rw [saveStep_completed hs hc hr] at h ⊢
      split at h
      · rw [if_pos ‹_›]
      · cases h
    · have hblank : Text.isBlankText name ≠ true := fun hblank =>
        hnamed ⟨name, last, rfl, hblank, hunrun, by rw [hact]; rfl⟩
      rw [saveStep_unrun hunrun hact, if_neg hblank] at h
      cases h

/-- A call that fails leaves the scenario as it was, whatever the cause, unless it runs a step to
save it under a name that is none. Then the step has run and stays with its result, and saving it
under a name afterwards, without running it again, leads to where saving it so at first would have
led. -/
theorem failed_call_undone (act : Executor σ) (e : Engine) (world : σ) {c : Call} {fault : Fault}
    (h : (e.call act.runner world c).1 = .error fault) :
    let after := (e.call act.runner world c).2.1
    (¬ e.RunsUnnamed act world c → after = e) ∧
    (e.RunsUnnamed act world c → fault = .configuration .unnamedStep ∧
      ∃ step result, e.unrun? = some step ∧ (act e.settings step world).1 = .ok result ∧
        after = e.finish step (.ok result) ∧
        ∀ name, Text.isBlankText name = false → ∀ world',
          after.call act.runner world' (.saveStep name) =
            (.ok none, (e.call act.runner world (.saveStep name)).2.1, world')) := by
  intro after
  constructor
  · -- a failure comes before anything is changed
    intro hnamed
    cases c with
    | construct c =>
      cases hmade : e.construct c with
      | error found => simp only [after, call, hmade]
      | ok made =>
        simp only [call, hmade] at h
        cases h
    | execute =>
      obtain ⟨found, last, hexecute⟩ | ⟨found, -, -, hexecute⟩ | ⟨_, found, _, -, -, hexecute⟩ :=
        execute_outcome act e world
      · simp only [after, call, hexecute]
      all_goals
        simp only [call, hexecute] at h
        cases h
    | advance => exact failed_advance h
    | saveStep name => exact failed_saveStep h hnamed
    | idle => cases h
  · -- the step runs before its name is looked at
    rintro ⟨unnamed, step, rfl, hblank, hunrun, hran⟩
    rcases hact : act e.settings step world with ⟨found | result, last⟩
    · rw [hact] at hran
      cases hran
    · have hcall := saveStep_unrun hunrun hact
      have hafter : after = e.finish step (.ok result) := by
        simp only [after, hcall, if_pos hblank]
      rw [hcall, if_pos hblank] at h
      refine ⟨(Except.error.inj h).symm, step, result, hunrun, congrArg Prod.fst hact, hafter,
        fun name hname world' => ?_⟩
      have hkept : (e.finish step (.ok result)).current = some step :=
        (unrun?_eq_some.mp hunrun).2
      rw [hafter, saveStep_completed rfl hkept rfl, hcall, hname]
      rfl

theorem failed_call_undone_auth :
    let act : Executor World := fun settings step world => world.run settings step
    let world := World.calm (.empty 1 .persisted 0)
    let step : HttpStep :=
      ⟨"http://host.test/a", "GET", .null, [], [], Binary64.ofNat 30, none⟩
    let e : Engine :=
      { settings := { http := { auth := some { type := .basic } } }, current := some (.http step) }
    (∃ fault, (e.call act.runner world .execute).1 = .error fault) ∧
      (e.call act.runner world .execute).2.1 = e := by
  intro act world step e
  obtain ⟨fault, hfault⟩ : ∃ fault, (e.call act.runner world .execute).1 = .error fault := ⟨_, rfl⟩
  have hnamed : ¬ e.RunsUnnamed act world .execute := by
    rintro ⟨_, _, hsave, -⟩
    cases hsave
  exact ⟨⟨fault, hfault⟩, (failed_call_undone act e world hfault).1 hnamed⟩

/-- A step that cannot be saved for want of a name has run all the same. -/
theorem unnamed_save_ran :
    let world := World.calm (.empty 1 .persisted 0)
    let fresh : Engine := { settings := {} }
    let described :=
      (fresh.call World.runner world (.construct (.apiResource "http://host.test/a"))).2.1
    let saved := described.call World.runner world (.saveStep "")
    saved.1 = .error (.configuration .unnamedStep) ∧
      described.stage = .building ∧ described.result.isNone ∧ described.history.length = 0 ∧
      saved.2.1.stage = .completed ∧ saved.2.1.result.isSome ∧ saved.2.1.history.length = 1 := by
  refine ⟨?_, ?_, ?_, ?_, ?_, ?_, ?_⟩ <;> rfl

end Rehearsal.Engine
