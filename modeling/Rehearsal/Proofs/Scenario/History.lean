import Rehearsal.Proofs.Scenario.Construction
import Rehearsal.Scenario

/-! The history of a scenario. Whatever an executor makes of the steps it is given, and whichever
calls are made, the history lists the runs that returned, one after another, and a result that is
there is that of the last of them. A completed step is never run again and never described again:
the only way on from it is to begin the next one. -/

namespace Rehearsal

variable {σ : Type}

/-- What runs steps: any outcome, and any change of the world. -/
abbrev Executor (σ : Type) := Settings → Step → σ → Except Fault StepResult × σ

def Executor.runner (act : Executor σ) : Runner σ := fun step engine world =>
  let outcome := act engine.settings step world
  (outcome.1, engine, outcome.2)

theorem World.runner_eq :
    World.runner = Executor.runner fun settings step world => world.run settings step := rfl

structure Attempt where
  step : Step
  outcome : Except Fault StepResult

/-- The entry that a run leaves in the history, if it returned. -/
def Attempt.executed? (attempt : Attempt) : Option ExecutedStep :=
  match attempt.outcome with
  | .ok result => some ⟨attempt.step, result⟩
  | .error _ => none

theorem Attempt.isSome_executed? (attempt : Attempt) :
    attempt.executed?.isSome = attempt.outcome.isOk := by
  rcases attempt with ⟨step, _ | _⟩ <;> rfl

/-- An executor that lists its runs beside the world. -/
def Executor.recording (act : Executor σ) : Executor (σ × List Attempt) :=
  fun settings step world =>
    let outcome := act settings step world.1
    (outcome.1, outcome.2, world.2 ++ [⟨step, outcome.1⟩])

theorem SavedSteps.mem_save {s s' : SavedSteps ExecutedStep} {name : String}
    {content : ExecutedStep} (hs : s.save name content = .ok s')
    {entry : String × String × ExecutedStep} (h : entry ∈ s'.entries) :
    entry ∈ s.entries ∨ entry.2.2 = content := by
  simp only [SavedSteps.save] at hs
  split at hs
  · cases hs
  · cases hs
    rcases Keyed.mem_put h with h | h
    · exact .inl h
    · exact .inr (by rw [h])

namespace Engine

/-- What holds of a scenario between calls, for the runs there were so far. -/
structure Consistent (origin : Context ExecutedStep) (e : Engine) (runs : List Attempt) :
    Prop where
  settled : e.stage ≠ .executing
  completed : e.stage = .completed ↔ e.result.isSome
  last : ∀ result, e.result = some result →
    ∃ step, e.current = some step ∧ e.history.getLast? = some ⟨step, result⟩
  history : e.history = runs.filterMap Attempt.executed?
  saved : ∀ entry ∈ e.context.steps.entries,
    entry ∈ origin.steps.entries ∨ entry.2.2 ∈ e.history

variable {origin : Context ExecutedStep} {e e' : Engine} {runs : List Attempt} {world : σ}
  {act : Executor σ}

theorem consistent_fresh (settings : Settings) (origin : Context ExecutedStep) :
    Consistent origin { settings := settings, context := origin } [] where
  settled := by simp
  completed := by simp
  last := by simp
  history := rfl
  saved := fun _ h => .inl h

theorem Consistent.history_length (h : Consistent origin e runs) :
    e.history.length = runs.countP fun attempt => attempt.outcome.isOk := by
  rw [h.history, List.length_filterMap_eq_countP]
  simp only [Attempt.isSome_executed?]

theorem Consistent.building (h : Consistent origin e runs) (hn : e.stage ≠ .completed) :
    e.stage = .building ∧ e.result = none := by
  refine ⟨?_, ?_⟩
  · cases hs : e.stage with
    | building => rfl
    | executing => exact absurd hs h.settled
    | completed => exact absurd hs hn
  · cases hr : e.result with
    | none => rfl
    | some result => exact absurd (h.completed.mpr (by simp [hr])) hn

/-- All that executing can do: show the result there is, refuse for want of a step, or run the step,
which returns a result or fails. -/
theorem execute_cases (h : Consistent origin e runs) (act : Executor σ) (world : σ) :
    let after := e.execute act.recording.runner (world, runs)
    (∃ result, e.stage = .completed ∧ e.result = some result ∧
      after = (.ok result, e, world, runs)) ∨
    (e.stage = .building ∧ e.current = none ∧
      after = (.error (.configuration .nothingToExecute), e, world, runs)) ∨
    (∃ step result world', e.stage = .building ∧ e.current = some step ∧
      after = (.ok result, { e with
          stage := .completed
          result := some result
          history := e.history ++ [⟨step, result⟩] }, world', runs ++ [⟨step, .ok result⟩])) ∨
    (∃ step fault world', e.stage = .building ∧ e.current = some step ∧
      after = (.error fault, e, world', runs ++ [⟨step, .error fault⟩])) := by
  intro after
  by_cases hc : e.stage = .completed
  · obtain ⟨result, hr⟩ := Option.isSome_iff_exists.mp (h.completed.mp hc)
    refine .inl ⟨result, hc, hr, ?_⟩
    simp only [after, execute, hc, hr]
  · obtain ⟨hb, -⟩ := h.building hc
    -- not completed and not running, it is building, and a run that fails puts it back to that
    obtain hcur | ⟨step, hcur⟩ := Option.eq_none_or_eq_some e.current
    · refine .inr (.inl ⟨hb, hcur, ?_⟩)
      simp only [after, execute, hb, hcur]
    · have hrun : after = ((act e.settings step world).1,
          Engine.finish { e with stage := .executing } step (act e.settings step world).1,
          (act e.settings step world).2, runs ++ [⟨step, (act e.settings step world).1⟩]) := by
        simp only [after, execute, hb, hcur]
        rfl
      cases hout : (act e.settings step world).1 with
      | ok result =>
        refine .inr (.inr (.inl ⟨step, result, (act e.settings step world).2, hb, hcur, ?_⟩))
        rw [hrun, hout]
        rfl
      | error fault =>
        refine .inr (.inr (.inr ⟨step, fault, (act e.settings step world).2, hb, hcur, ?_⟩))
        rw [hrun, hout]
        have hback : Engine.finish { e with stage := .executing } step (.error fault) = e := by
          cases e
          cases hb
          rfl
        rw [hback]

theorem Consistent.returned (h : Consistent origin e runs) {step : Step}
    (hs : e.current = some step) (result : StepResult) :
    Consistent origin { e with
      stage := .completed
      result := some result
      history := e.history ++ [⟨step, result⟩] } (runs ++ [⟨step, .ok result⟩]) where
  settled := by simp
  completed := by simp
  last := by
    intro found hf
    obtain rfl : result = found := by simpa using hf
    exact ⟨step, hs, by simp⟩
  history := by
    rw [List.filterMap_append, ← h.history]
    rfl
  saved := by
    intro entry hentry
    rcases h.saved entry hentry with hold | hnew
    · exact .inl hold
    · exact .inr (List.mem_append_left _ hnew)

theorem Consistent.failed (h : Consistent origin e runs) (step : Step) (fault : Fault) :
    Consistent origin e (runs ++ [⟨step, .error fault⟩]) := by
  refine ⟨h.settled, h.completed, h.last, ?_, h.saved⟩
  rw [List.filterMap_append, ← h.history]
  exact (List.append_nil _).symm

theorem Consistent.afresh (h : Consistent origin e runs) : Consistent origin e.afresh runs where
  settled := by simp [Engine.afresh]
  completed := by simp [Engine.afresh]
  last := by simp [Engine.afresh]
  history := h.history
  saved := h.saved

/-- What a call may make of a scenario: history is only added to. -/
structure Continues (origin : Context ExecutedStep) (e : Engine)
    (after : Engine × σ × List Attempt) : Prop where
  consistent : Consistent origin after.1 after.2.2
  grown : e.history <+: after.1.history

theorem Consistent.unchanged (h : Consistent origin e runs) (world : σ) :
    Continues origin e (e, world, runs) := ⟨h, List.prefix_rfl⟩

theorem Consistent.execute (h : Consistent origin e runs) (act : Executor σ) (world : σ) :
    Continues origin e (e.execute act.recording.runner (world, runs)).2 := by
  rcases execute_cases h act world with ⟨_, -, -, ha⟩ | ⟨-, -, ha⟩ |
    ⟨step, result, _, -, hs, ha⟩ | ⟨step, fault, _, -, -, ha⟩
  · rw [ha]
    exact h.unchanged world
  · rw [ha]
    exact h.unchanged world
  · rw [ha]
    exact ⟨h.returned hs result, List.prefix_append _ _⟩
  · rw [ha]
    exact ⟨h.failed step fault, List.prefix_rfl⟩

theorem Consistent.advance (h : Consistent origin e runs) (act : Executor σ) (world : σ) :
    Continues origin e (e.advance act.recording.runner (world, runs)).2 := by
  have hrun := h.execute act world
  simp only [Engine.advance]
  split
  · split
    · rename_i hr
      rwa [hr] at hrun
    · rename_i hr
      rw [hr] at hrun
      exact ⟨hrun.consistent.afresh, hrun.grown⟩
  · exact ⟨h.afresh, List.prefix_rfl⟩

/-- Saving keeps all but the saved steps, and what it saves is the last entry of the history. -/
theorem Consistent.saved_ok (h : Consistent origin e runs) {name : String} {step : Step}
    {result : StepResult} (hs : e.current = some step) (hr : e.result = some result)
    (hsaved : e.saved name step result = .ok e') :
    Consistent origin e' runs ∧ ∃ context, e' = { e with context := context } := by
  obtain ⟨steps, hsteps, h'⟩ := bind_eq_ok.mp hsaved
  cases h'
  obtain ⟨found, hfound, hlast⟩ := h.last result hr
  obtain rfl : step = found := Option.some.inj (hs.symm.trans hfound)
  refine ⟨⟨h.settled, h.completed, h.last, h.history, ?_⟩, _, rfl⟩
  intro entry hentry
  rcases SavedSteps.mem_save hsteps hentry with hold | hnew
  · exact h.saved entry hold
  · exact .inr (hnew ▸ List.mem_of_getLast? hlast)

theorem Consistent.saveStep (h : Consistent origin e runs) (act : Executor σ) (world : σ)
    (name : String) :
    Continues origin e (e.saveStep act.recording.runner name (world, runs)).2 := by
  have hrun := h.execute act world
  simp only [Engine.saveStep]
  split
  · exact h.unchanged world
  · split
    · rename_i hr
      rwa [hr] at hrun
    · rename_i hr
      rw [hr] at hrun
      split
      · rename_i hstep hresult
        split
        · rename_i hs
          obtain ⟨hc, _, rfl⟩ := hrun.consistent.saved_ok hstep hresult hs
          exact ⟨hc, hrun.grown⟩
        · exact hrun
      · exact hrun

theorem Consistent.construct (h : Consistent origin e runs) {c : Construction}
    (hc : e.construct c = .ok e') : Consistent origin e' runs ∧ e'.history = e.history := by
  obtain ⟨hb, current, properties, rfl⟩ := construct_redescribes hc
  have hn : e.result = none := (h.building (by simp [hb])).2
  refine ⟨⟨h.settled, h.completed, ?_, h.history, h.saved⟩, rfl⟩
  intro result hr
  simp [redescribe, hn] at hr

theorem Consistent.call (h : Consistent origin e runs) (act : Executor σ) (world : σ) (c : Call) :
    Continues origin e (e.call act.recording.runner (world, runs) c).2 := by
  cases c with
  | construct c =>
    simp only [Engine.call]
    split
    · rename_i hc
      obtain ⟨hc, hh⟩ := h.construct hc
      exact ⟨hc, hh ▸ List.prefix_rfl⟩
    · exact h.unchanged world
  | execute =>
    have hrun := h.execute act world
    simp only [Engine.call]
    split <;> rename_i hr <;> rwa [hr] at hrun
  | advance =>
    have hrun := h.advance act world
    simp only [Engine.call]
    split <;> rename_i hr <;> rwa [hr] at hrun
  | saveStep name =>
    have hrun := h.saveStep act world name
    simp only [Engine.call]
    split <;> rename_i hr <;> rwa [hr] at hrun
  | idle => exact h.unchanged world

theorem Consistent.callAll (h : Consistent origin e runs) (act : Executor σ) (world : σ)
    (calls : List Call) :
    Continues origin e (e.callAll act.recording.runner (world, runs) calls) := by
  induction calls generalizing e runs world with
  | nil => exact h.unchanged world
  | cons c rest ih =>
    have hone := h.call act world c
    have hrest := ih hone.consistent (e.call act.recording.runner (world, runs) c).2.2.1
    exact ⟨hrest.consistent, hone.grown.trans hrest.grown⟩

/-! A completed scenario, and calls that describe. -/

/-- On a completed scenario nothing is run: a call changes the saved steps at most, or begins the
next step. -/
theorem call_completed (h : Consistent origin e runs) (hc : e.stage = .completed)
    (act : Executor σ) (world : σ) (c : Call) :
    let after := (e.call act.recording.runner (world, runs) c).2
    after.2 = (world, runs) ∧
      ((∃ context, after.1 = { e with context := context }) ∨
        (c = .advance ∧ after.1 = e.afresh)) := by
  intro after
  obtain ⟨result, hr⟩ := Option.isSome_iff_exists.mp (h.completed.mp hc)
  -- executing shows the result there is
  have hrun : e.execute act.recording.runner (world, runs) = (.ok result, e, world, runs) := by
    simp only [execute, hc, hr]
  cases c with
  | construct c =>
    cases hcon : e.construct c with
    | ok e' =>
      obtain ⟨hb, -⟩ := construct_redescribes hcon
      rw [hb] at hc
      cases hc
    | error fault =>
      rw [show after = (e, world, runs) by simp only [after, call, hcon]]
      exact ⟨rfl, .inl ⟨_, rfl⟩⟩
  | execute =>
    rw [show after = (e, world, runs) by simp only [after, call, hrun]]
    exact ⟨rfl, .inl ⟨_, rfl⟩⟩
  | advance =>
    have hn : ¬(e.stage = .building ∧ e.current.isSome) := by simp [hc]
    rw [show after = (e.afresh, world, runs) by
      simp only [after, call, Engine.advance, if_neg hn]]
    exact ⟨rfl, .inr ⟨rfl, rfl⟩⟩
  | saveStep name =>
    obtain ⟨step, hstep, -⟩ := h.last result hr
    cases hs : e.saved name step result with
    | ok e' =>
      rw [show after = (e', world, runs) by
        simp [after, call, Engine.saveStep, hrun, hstep, hr, hs]]
      exact ⟨rfl, .inl (h.saved_ok hstep hr hs).2⟩
    | error fault =>
      rw [show after = (e, world, runs) by
        simp [after, call, Engine.saveStep, hrun, hstep, hr, hs]]
      exact ⟨rfl, .inl ⟨_, rfl⟩⟩
  | idle => exact ⟨rfl, .inl ⟨_, rfl⟩⟩

theorem call_construct (run : Runner σ) (e : Engine) (world : σ) (c : Construction) :
    let (answer, after, world') := e.call run world (.construct c)
    world' = world ∧
    (∀ fault, answer = .error fault → after = e) ∧
    (∀ found, answer = .ok found →
      after.stage = e.stage ∧ after.result = e.result ∧ after.history = e.history ∧
      (c.isEntry = false → after.current.map Step.variant = e.current.map Step.variant)) ∧
    (e.stage = .completed → c.Acceptable →
      ∃ operation, answer = .error (.scenarioState (.completed operation))) := by
  cases hcon : e.construct c with
  | ok e' =>
    simp only [call, hcon]
    obtain ⟨hb, current, properties, he'⟩ := construct_redescribes hcon
    refine ⟨trivial, by simp, ?_, ?_⟩
    · intro _ _
      refine ⟨by rw [he']; rfl, by rw [he']; rfl, by rw [he']; rfl, ?_⟩
      exact fun hc => construct_variant hc hcon
    · intro hs
      rw [hb] at hs
      cases hs
  | error fault =>
    simp only [call, hcon]
    refine ⟨trivial, by simp, by simp, ?_⟩
    intro hs hc
    obtain ⟨operation, hop⟩ := construct_completed hs hc
    rw [hcon] at hop
    exact ⟨operation, by rw [Except.error.inj hop]⟩

theorem call_execute_failed (h : Consistent origin e runs) (act : Executor σ) (world : σ)
    {fault : Fault}
    (hf : (e.call act.recording.runner (world, runs) .execute).1 = .error fault) :
    (e.call act.recording.runner (world, runs) .execute).2.1 = e := by
  simp only [call] at hf ⊢
  rcases execute_cases h act world with ⟨_, -, -, ha⟩ | ⟨-, -, ha⟩ | ⟨_, _, _, -, -, ha⟩ |
    ⟨_, _, _, -, -, ha⟩
  · rw [ha]
  · rw [ha]
  · rw [ha] at hf
    cases hf
  · rw [ha]

/-! The list of runs beside the world changes nothing. -/

theorem execute_recording (act : Executor σ) (e : Engine) (world : σ) (runs : List Attempt) :
    ∃ runs', e.execute act.recording.runner (world, runs) =
      ((e.execute act.runner world).1, (e.execute act.runner world).2.1,
        (e.execute act.runner world).2.2, runs') := by
  simp only [Engine.execute]
  split
  · exact ⟨_, rfl⟩
  · split <;> exact ⟨_, rfl⟩
  · split
    · exact ⟨_, rfl⟩
    · exact ⟨_, rfl⟩

theorem advance_recording (act : Executor σ) (e : Engine) (world : σ) (runs : List Attempt) :
    ∃ runs', e.advance act.recording.runner (world, runs) =
      ((e.advance act.runner world).1, (e.advance act.runner world).2.1,
        (e.advance act.runner world).2.2, runs') := by
  obtain ⟨runs', hrun⟩ := execute_recording act e world runs
  rcases ha : e.execute act.runner world with ⟨_ | _, _, _⟩ <;> rw [ha] at hrun <;>
    simp only [Engine.advance, hrun, ha] <;> split <;> exact ⟨_, rfl⟩

theorem saveStep_recording (act : Executor σ) (e : Engine) (name : String) (world : σ)
    (runs : List Attempt) :
    ∃ runs', e.saveStep act.recording.runner name (world, runs) =
      ((e.saveStep act.runner name world).1, (e.saveStep act.runner name world).2.1,
        (e.saveStep act.runner name world).2.2, runs') := by
  obtain ⟨runs', hrun⟩ := execute_recording act e world runs
  simp only [Engine.saveStep, hrun]
  split
  · exact ⟨_, rfl⟩
  · rcases e.execute act.runner world with ⟨_ | _, after, _⟩
    · exact ⟨_, rfl⟩
    · dsimp only
      split
      · split <;> exact ⟨_, rfl⟩
      · exact ⟨_, rfl⟩

theorem call_recording (act : Executor σ) (e : Engine) (world : σ) (runs : List Attempt)
    (c : Call) :
    ∃ runs', e.call act.recording.runner (world, runs) c =
      ((e.call act.runner world c).1, (e.call act.runner world c).2.1,
        (e.call act.runner world c).2.2, runs') := by
  cases c with
  | construct c => cases hcon : e.construct c <;> simp only [call, hcon] <;> exact ⟨_, rfl⟩
  | execute =>
    obtain ⟨_, hrun⟩ := execute_recording act e world runs
    simp only [call, hrun]
    rcases e.execute act.runner world with ⟨_ | _, _⟩ <;> exact ⟨_, rfl⟩
  | advance =>
    obtain ⟨_, hrun⟩ := advance_recording act e world runs
    simp only [call, hrun]
    rcases e.advance act.runner world with ⟨_ | _, _⟩ <;> exact ⟨_, rfl⟩
  | saveStep name =>
    obtain ⟨_, hrun⟩ := saveStep_recording act e name world runs
    simp only [call, hrun]
    rcases e.saveStep act.runner name world with ⟨_ | _, _⟩ <;> exact ⟨_, rfl⟩
  | idle => exact ⟨_, rfl⟩

theorem callAll_recording (act : Executor σ) (e : Engine) (world : σ) (runs : List Attempt)
    (calls : List Call) :
    ∃ runs', e.callAll act.recording.runner (world, runs) calls =
      ((e.callAll act.runner world calls).1, (e.callAll act.runner world calls).2, runs') := by
  induction calls generalizing e world runs with
  | nil => exact ⟨_, rfl⟩
  | cons c rest ih =>
    obtain ⟨runs', hone⟩ := call_recording act e world runs c
    simp only [Engine.callAll, hone]
    exact ih _ _ runs'

/-- After any calls on a new scenario, its stage, result, history and saved steps agree with the
runs there were, and every further call keeps to what is stated of it: the history is only added to,
a completed step is neither run nor described again, and a call that fails to describe a step
changes nothing. -/
theorem calls_keep_history (act : Executor σ) (settings : Settings)
    (origin : Context ExecutedStep) (world : σ) (calls : List Call) :
    let fresh : Engine := { settings := settings, context := origin }
    let run := act.recording.runner
    let reached := fresh.callAll run (world, []) calls
    let e := reached.1
    let runs := reached.2.2
    fresh.callAll act.runner world calls = (e, reached.2.1) ∧
    Consistent origin e runs ∧
    e.history.length = runs.countP (fun attempt => attempt.outcome.isOk) ∧
    (∀ more, e.history <+: (e.callAll run reached.2 more).1.history) ∧
    (∀ result, e.result = some result →
      e.call run reached.2 .execute = (.ok (some result), e, reached.2)) ∧
    (∀ fault, (e.call run reached.2 .execute).1 = .error fault →
      (e.call run reached.2 .execute).2.1 = e) ∧
    (e.stage = .completed → ∀ c,
      let after := (e.call run reached.2 c).2
      after.2 = reached.2 ∧
        ((∃ context, after.1 = { e with context := context }) ∨
          (c = .advance ∧ after.1 = e.afresh))) ∧
    (∀ c : Construction,
      let (answer, after, world') := e.call run reached.2 (.construct c)
      world' = reached.2 ∧
      (∀ fault, answer = .error fault → after = e) ∧
      (∀ found, answer = .ok found →
        after.stage = e.stage ∧ after.result = e.result ∧ after.history = e.history ∧
        (c.isEntry = false → after.current.map Step.variant = e.current.map Step.variant)) ∧
      (e.stage = .completed → c.Acceptable →
        ∃ operation, answer = .error (.scenarioState (.completed operation)))) := by
  intro fresh run reached e runs
  have h : Consistent origin e runs :=
    ((consistent_fresh settings origin).callAll act world calls).consistent
  obtain ⟨runs', hrec⟩ := callAll_recording act fresh world [] calls
  refine ⟨?_, h, h.history_length, ?_, ?_, ?_, ?_, ?_⟩
  · rw [show e = _ from congrArg Prod.fst hrec,
      show reached.2.1 = _ from congrArg (fun after => after.2.1) hrec]
  · intro more
    exact (h.callAll act reached.2.1 more).grown
  · intro result hr
    have hc : e.stage = .completed := h.completed.mpr (by rw [hr]; rfl)
    simp only [call, execute, hc, hr]
  · intro fault hf
    exact call_execute_failed h act reached.2.1 hf
  · intro hc c
    exact call_completed h hc act reached.2.1 c
  · exact call_construct run e reached.2

end Engine

end Rehearsal
