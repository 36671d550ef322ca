import Rehearsal.Proofs.Scenario.History

/-! What calls add to the history. Executing, saving and going on add the run of a step that was
described and has not run; describing adds nothing. -/

namespace Rehearsal

variable {σ : Type}

namespace Engine

def Settled (origin : Context ExecutedStep) (e : Engine) : Prop :=
  ∃ runs, Consistent origin e runs

variable {origin : Context ExecutedStep} {e : Engine}

theorem Settled.call (h : Settled origin e) (act : Executor σ) (world : σ) (c : Call) :
    Settled origin (e.call act.runner world c).2.1 := by
  obtain ⟨runs, hruns⟩ := h
  obtain ⟨runs', hrec⟩ := call_recording act e world runs c
  have hafter := (hruns.call act world c).consistent
  rw [hrec] at hafter
  exact ⟨runs', hafter⟩

theorem execute_building {step : Step} (hb : e.stage = .building) (hc : e.current = some step)
    (act : Executor σ) (world : σ) :
    e.execute act.runner world = ((act e.settings step world).1,
      Engine.finish { e with stage := .executing } step (act e.settings step world).1,
      (act e.settings step world).2) := by
  simp only [execute, hb, hc]
  rfl

/-- The entries that a run adds to the history. -/
def entries (step : Step) (outcome : Except Fault StepResult) : List ExecutedStep :=
  outcome.toOption.toList.map (ExecutedStep.mk step)

theorem history_finish (e : Engine) (step : Step) (outcome : Except Fault StepResult) :
    (e.finish step outcome).history = e.history ++ entries step outcome := by
  cases outcome with
  | ok result => rfl
  | error fault => exact (List.append_nil _).symm

/-- The step that is described and has not run. -/
def unrun? (e : Engine) : Option Step := if e.stage = .building then e.current else none

/-- The entries that running it adds to the history. -/
def pending (e : Engine) (act : Executor σ) (world : σ) : List ExecutedStep :=
  e.unrun?.elim [] fun step => entries step (act e.settings step world).1

theorem Settled.history_execute (h : Settled origin e) (act : Executor σ) (world : σ) :
    (e.execute act.runner world).2.1.history = e.history ++ e.pending act world := by
  obtain ⟨runs, hruns⟩ := h
  cases hs : e.stage with
  | executing => exact absurd hs hruns.settled
  | completed =>
    obtain ⟨found, hfound⟩ := Option.isSome_iff_exists.mp (hruns.completed.mp hs)
    simp [Engine.execute, hs, hfound, pending, unrun?]
  | building =>
    obtain hc | ⟨step, hc⟩ := Option.eq_none_or_eq_some e.current
    · simp [Engine.execute, hs, hc, pending, unrun?]
    · rw [execute_building hs hc act world, history_finish, pending, unrun?, if_pos hs, hc]
      rfl

/-- What executing answers is the result of the last entry of the history, and it stays the answer.
If it fails the history is as before. -/
theorem Settled.execute (h : Settled origin e) (act : Executor σ) (world : σ) :
    let after := e.execute act.runner world
    (∀ result, after.1 = .ok result →
      after.2.1.history.getLast?.map (·.result) = some result ∧
      ∀ world', after.2.1.execute act.runner world' = (.ok result, after.2.1, world')) ∧
    ∀ fault, after.1 = .error fault → after.2.1.history = e.history := by
  intro after
  obtain ⟨runs, hruns⟩ := h
  cases hs : e.stage with
  | executing => exact absurd hs hruns.settled
  | completed =>
    obtain ⟨found, hfound⟩ := Option.isSome_iff_exists.mp (hruns.completed.mp hs)
    obtain ⟨step, -, hlast⟩ := hruns.last found hfound
    have hagain : ∀ world', e.execute act.runner world' = (.ok found, e, world') := by
      intro world'
      simp only [Engine.execute, hs, hfound]
    have hafter : after = (.ok found, e, world) := hagain world
    rw [hafter]
    refine ⟨fun result hresult => ?_, fun fault hfault => ?_⟩
    · cases hresult
      rw [hlast, Option.map_some]
      exact ⟨rfl, hagain⟩
    · cases hfault
  | building =>
    obtain hc | ⟨step, hc⟩ := Option.eq_none_or_eq_some e.current
    · have hafter : after = (.error (.configuration .nothingToExecute), e, world) := by
        simp only [after, Engine.execute, hs, hc]
      rw [hafter]
      refine ⟨fun result hresult => ?_, fun _ _ => rfl⟩
      cases hresult
    · have hafter : after = _ := execute_building hs hc act world
      rw [hafter, history_finish]
      refine ⟨fun result hresult => ?_, fun fault hfault => ?_⟩
      · rw [hresult]
        exact ⟨by simp [entries, Except.toOption], fun _ => rfl⟩
      · rw [hfault]
        exact List.append_nil _

theorem history_construct (run : Runner σ) (e : Engine) (world : σ) (c : Construction) :
    (e.call run world (.construct c)).2.1.history = e.history := by
  cases hcon : e.construct c with
  | error fault => simp only [Engine.call, hcon]
  | ok made =>
    obtain ⟨-, _, _, rfl⟩ := construct_redescribes hcon
    simp only [Engine.call, hcon, redescribe]

theorem history_saved {step : Step} {result : StepResult} {name : String} {e' : Engine}
    (h : e.saved name step result = .ok e') : e'.history = e.history := by
  obtain ⟨steps, -, h'⟩ := bind_eq_ok.mp h
  cases h'
  rfl

/-! Going on runs the step that has not run, if there is one, and no other, and so does saving. -/

theorem Settled.history_advance (h : Settled origin e) (act : Executor σ) (world : σ) :
    (e.call act.runner world .advance).2.1.history = e.history ++ e.pending act world := by
  have hrun := h.history_execute act world
  by_cases hunrun : e.stage = .building ∧ e.current.isSome
  · rcases hexecute : e.execute act.runner world with ⟨fault | result, e', world'⟩ <;>
      rw [hexecute] at hrun <;>
      simpa only [Engine.call, Engine.advance, if_pos hunrun, hexecute, afresh] using hrun
  · have hnone : e.unrun? = none := by
      by_cases hb : e.stage = .building
      · simpa [unrun?, hb] using fun hsome => hunrun ⟨hb, hsome⟩
      · rw [unrun?, if_neg hb]
    simp [Engine.call, Engine.advance, hunrun, pending, hnone, afresh]

theorem advance_afresh {run : Runner σ} {world world' : σ} {answer : Option StepResult}
    {e' : Engine} (h : e.call run world .advance = (.ok answer, e', world')) :
    e'.stage = .building ∧ e'.current = none := by
  by_cases hunrun : e.stage = .building ∧ e.current.isSome
  · rcases hexecute : e.execute run world with ⟨fault | result, ran, after⟩
    · simp [Engine.call, Engine.advance, if_pos hunrun, hexecute] at h
    · simp only [Engine.call, Engine.advance, if_pos hunrun, hexecute] at h
      cases h
      exact ⟨rfl, rfl⟩
  · simp only [Engine.call, Engine.advance, if_neg hunrun] at h
    cases h
    exact ⟨rfl, rfl⟩

theorem Settled.history_saveStep (h : Settled origin e) (act : Executor σ) (world : σ)
    (name : String) :
    (e.call act.runner world (.saveStep name)).2.1.history = e.history ++ e.pending act world := by
  have hrun := h.history_execute act world
  obtain hc | ⟨step, hc⟩ := Option.eq_none_or_eq_some e.current
  · have hnone : e.unrun? = none := by simp [unrun?, hc]
    simp [Engine.call, saveStep, hc, pending, hnone]
  · rcases hexecute : e.execute act.runner world with ⟨fault | result, e', world'⟩
    · rw [hexecute] at hrun
      simpa [Engine.call, saveStep, hc, hexecute] using hrun
    · rw [hexecute] at hrun
      rw [← hrun]
      simp only [Engine.call, saveStep, hc, hexecute, Option.isNone_some, Bool.false_eq_true,
        if_false]
      -- what is saved changes the context and no more
      cases hcurrent : e'.current with
      | none => rfl
      | some last =>
        cases hresult : e'.result with
        | none => rfl
        | some found =>
          cases hsaved : e'.saved name last found with
          | error fault => simp only [hsaved]
          | ok kept => simp only [hsaved, history_saved hsaved]

end Engine

end Rehearsal
