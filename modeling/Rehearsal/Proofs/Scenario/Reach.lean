import Rehearsal.Proofs.Scenario.History

/-! The scenarios that calls lead to, whoever runs the steps and whether a call comes between two
steps or while one runs. The step under description is built from its own draft again if it is one
with a broker, and its authentication resolves: every call looks at what it writes. -/

namespace Rehearsal

theorem StepDraft.Checked.set {draft : StepDraft} {c : Construction} {change : StepChange}
    (h : draft.Checked) (hchange : change.Checked c) : (draft.set change).Checked := by
  obtain ⟨htime, hauth⟩ := h
  refine ⟨?_, ?_⟩
  · rcases draft.timeout_set change with hsame | hset
    · rwa [hsame]
    · rw [hset] at hchange
      exact hchange
  · rcases draft.brokerAuth_set change with hsame | hset
    · rwa [hsame]
    · rw [hset] at hchange
      exact hchange

theorem StepDraft.Checked.setAll {draft : StepDraft} {c : Construction} {changes : List StepChange}
    (h : draft.Checked) (hchanges : ∀ change ∈ changes, change.Checked c) :
    (draft.setAll changes).Checked := by
  induction changes generalizing draft with
  | nil => exact h
  | cons change rest ih =>
    exact ih (h.set (hchanges change List.mem_cons_self))
      fun later hlater => hchanges later (List.mem_cons_of_mem _ hlater)

/-- Whether a step is built from its own draft again and has an authentication that resolves. -/
def Step.Sound (step : Step) : Prop :=
  step.Renewable ∧ ∃ strategy, BrokerStrategy.resolve step.brokerAuth = .ok strategy

theorem StepDraft.Checked.sound {draft : StepDraft} {step : Step} (h : draft.Checked)
    (hbuild : draft.build = .ok step) : step.Sound := by
  obtain ⟨⟨x, htime⟩, hauth⟩ := h
  refine ⟨StepDraft.build_renewable htime hbuild, ?_⟩
  rwa [StepDraft.brokerAuth_build hbuild]

theorem Step.Sound.checked {step : Step} (h : step.Sound) : step.draft.Checked := by
  refine ⟨step.timeout_draft, ?_⟩
  rw [step.brokerAuth_draft]
  exact h.2

namespace Engine

/-- The moves that calls are made of. -/
inductive Reachable : Engine → Prop where
  | fresh (settings : Settings) (context : Context ExecutedStep) :
      Reachable { settings := settings, context := context }
  | described {e e' : Engine} {c : Construction} (h : Reachable e) (hc : e.construct c = .ok e') :
      Reachable e'
  | begun {e : Engine} (h : Reachable e) : Reachable { e with stage := .executing }
  | ended {e : Engine} (h : Reachable e) (step : Step) (outcome : Except Fault StepResult) :
      Reachable (e.finish step outcome)
  | renewed {e : Engine} (h : Reachable e) : Reachable e.afresh
  | noted {e : Engine} (h : Reachable e) (context : Context ExecutedStep) :
      Reachable { e with context := context }

/-- Whether the step under description, if there is one, is sound. -/
def Sound (e : Engine) : Prop := ∀ step, e.current = some step → step.Sound

variable {e e' : Engine}

theorem Sound.construct (h : e.Sound) {c : Construction} (hc : e.construct c = .ok e') :
    e'.Sound := by
  cases hentry : c.isEntry with
  | true =>
    obtain ⟨-, ⟨draft, hdraft, hstart⟩ | ⟨properties, rfl⟩⟩ := construct_begins hentry hc
    · obtain ⟨step, hbuild, rfl⟩ := map_eq_ok.mp hstart
      intro found hfound
      obtain rfl : step = found := Option.some.inj hfound
      exact hdraft.checked.sound hbuild
    · exact h
  | false =>
    obtain ⟨operation, accepted, changes, hchanges, hevolve⟩ := construct_amends hentry hc
    obtain ⟨old, new, hold, hnew, rfl⟩ := evolve_ok hevolve
    obtain ⟨-, hcurrent, -⟩ := require_ok hold
    have hdraft : (old.draft.setAll changes).Checked := (h old hcurrent).checked.setAll hchanges
    intro found hfound
    obtain rfl : new = found := Option.some.inj hfound
    exact hdraft.sound (Step.build_of_evolve hnew)

theorem Reachable.sound (h : Reachable e) : e.Sound := by
  induction h with
  | fresh settings context =>
    intro step hstep
    cases hstep
  | described _ hc ih => exact ih.construct hc
  | begun _ ih => exact ih
  | ended _ step outcome ih => cases outcome <;> exact ih
  | renewed _ ih =>
    intro step hstep
    cases hstep
  | noted _ context ih => exact ih

end Engine

/-- Whether a runner leaves alone what holds of a scenario. -/
def Runner.Preserves {σ : Type} (run : Runner σ) (P : Engine → Prop) : Prop :=
  ∀ step (e : Engine) world, P e → P (run step e world).2.1

/-- Whether a runner leaves scenarios reachable, as one does that makes calls at most. -/
def Runner.Keeps {σ : Type} (run : Runner σ) : Prop := run.Preserves Engine.Reachable

theorem Executor.runner_preserves {σ : Type} (act : Executor σ) (P : Engine → Prop) :
    act.runner.Preserves P :=
  fun _ _ _ h => h

theorem Executor.runner_keeps {σ : Type} (act : Executor σ) : act.runner.Keeps :=
  act.runner_preserves _

namespace Engine

/-- Whether the moves other than describing a step leave alone what holds of a scenario. -/
structure Stable (P : Engine → Prop) : Prop where
  begun : ∀ {e : Engine}, P e → P { e with stage := .executing }
  ended : ∀ {e : Engine}, P e → ∀ step outcome, P (e.finish step outcome)
  renewed : ∀ {e : Engine}, P e → P e.afresh
  noted : ∀ {e : Engine}, P e → ∀ context, P { e with context := context }

namespace Stable

variable {σ : Type} {P : Engine → Prop} {run : Runner σ} {e : Engine}

theorem execute (hP : Stable P) (hrun : run.Preserves P) (h : P e) (world : σ) :
    P (e.execute run world).2.1 := by
  simp only [Engine.execute]
  split
  · exact h
  · split <;> exact h
  · split
    · exact h
    · exact hP.ended (hrun _ _ world (hP.begun h)) _ _

theorem advance (hP : Stable P) (hrun : run.Preserves P) (h : P e) (world : σ) :
    P (e.advance run world).2.1 := by
  have hran := hP.execute hrun h world
  simp only [Engine.advance]
  split
  · split
    · rename_i hr
      rwa [hr] at hran
    · rename_i hr
      rw [hr] at hran
      exact hP.renewed hran
  · exact hP.renewed h

theorem saved (hP : Stable P) (h : P e) {name : String} {step : Step} {result : StepResult}
    {e' : Engine} (hs : e.saved name step result = .ok e') : P e' := by
  obtain ⟨_, -, hs⟩ := bind_eq_ok.mp hs
  cases hs
  exact hP.noted h _

theorem saveStep (hP : Stable P) (hrun : run.Preserves P) (h : P e) (name : String) (world : σ) :
    P (e.saveStep run name world).2.1 := by
  have hran := hP.execute hrun h world
  simp only [Engine.saveStep]
  split
  · exact h
  · split
    · rename_i hr
      rwa [hr] at hran
    · rename_i hr
      rw [hr] at hran
      split
      · split
        · rename_i hs
          exact hP.saved hran hs
        · exact hran
      · exact hran

theorem call (hP : Stable P) (hrun : run.Preserves P) (h : P e) (world : σ) {c : Call}
    (hdescribed : ∀ made e', c = .construct made → e.construct made = .ok e' → P e') :
    P (e.call run world c).2.1 := by
  cases c with
  | construct c =>
    simp only [Engine.call]
    split
    · rename_i hc
      exact hdescribed c _ rfl hc
    · exact h
  | execute =>
    have hran := hP.execute hrun h world
    simp only [Engine.call]
    split <;> rename_i hr <;> rwa [hr] at hran
  | advance =>
    have hran := hP.advance hrun h world
    simp only [Engine.call]
    split <;> rename_i hr <;> rwa [hr] at hran
  | saveStep name =>
    have hran := hP.saveStep hrun h name world
    simp only [Engine.call]
    split <;> rename_i hr <;> rwa [hr] at hran
  | idle => exact h

theorem callAll (hP : Stable P) (hrun : run.Preserves P) {allowed : Construction → Prop}
    (hdescribed : ∀ {e e' : Engine} {c}, P e → allowed c → e.construct c = .ok e' → P e')
    (h : P e) (world : σ) {calls : List Call} (hcalls : ∀ c, .construct c ∈ calls → allowed c) :
    P (e.callAll run world calls).1 := by
  induction calls generalizing e world with
  | nil => exact h
  | cons c rest ih =>
    refine ih (hP.call hrun h world fun made e' hmade hc => ?_) _
      fun later hlater => hcalls later (List.mem_cons_of_mem _ hlater)
    subst hmade
    exact hdescribed h (hcalls made List.mem_cons_self) hc

end Stable

theorem Reachable.stable : Stable Reachable := ⟨.begun, .ended, .renewed, .noted⟩

theorem Reachable.callAll {σ : Type} {run : Runner σ} {e : Engine} (h : e.Reachable)
    (hrun : run.Keeps) (world : σ) (calls : List Call) : (e.callAll run world calls).1.Reachable :=
  stable.callAll hrun (fun h _ hc => .described h hc) h world
    fun _ _ => trivial

end Engine

end Rehearsal
