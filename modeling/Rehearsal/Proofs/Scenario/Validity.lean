import Rehearsal.Proofs.Execution.Laws
import Rehearsal.Proofs.Execution.Raising
import Rehearsal.Proofs.Scenario.Pending
import Rehearsal.Proofs.Scenario.Reach

/-! The step that calls describe is valid. Each call that describes a step writes what it has looked
at into the draft of a valid step, so the draft stays vetted and builds a valid step again; the other
calls keep the step or drop it. -/

namespace Rehearsal

/-- Whether a tuning that a call hands over has passed its check, as every one has that is made. -/
def Construction.Proper : Construction → Prop
  | .tuning settings => settings.check = .ok settings
  | _ => True

namespace StepDraft.Vetted

variable {draft : StepDraft} {c : Construction}

theorem set (h : draft.Vetted) (hc : c.Proper) {change : StepChange} (hchange : change.Checked c) :
    (draft.set change).Vetted where
  checked := h.checked.set hchange
  url := by
    rcases draft.url_set change with hsame | hset
    · rw [hsame]
      exact h.url
    · rw [hset] at hchange
      exact hchange
  httpAuth := by
    rcases draft.httpAuth_set change with hsame | hset
    · rw [hsame]
      exact h.httpAuth
    · rw [hset] at hchange
      exact hchange
  tuning := by
    rcases draft.tuning_set change with hsame | hset
    · rw [hsame]
      exact h.tuning
    · rw [hset] at hchange
      rcases hchange with hpasses | rfl
      · exact hpasses
      · exact hc
  jsonOptions := by
    rcases draft.jsonOptions_set change with hsame | hset
    · rw [hsame]
      exact h.jsonOptions
    · rw [hset] at hchange
      exact hchange

theorem setAll (h : draft.Vetted) (hc : c.Proper) {changes : List StepChange}
    (hchanges : ∀ change ∈ changes, change.Checked c) : (draft.setAll changes).Vetted := by
  induction changes generalizing draft with
  | nil => exact h
  | cons change rest ih =>
    exact ih (h.set hc (hchanges change List.mem_cons_self))
      fun later hlater => hchanges later (List.mem_cons_of_mem _ hlater)

end StepDraft.Vetted

namespace Engine

/-- The moves that calls are made of, where a tuning that is handed over has passed its check. -/
inductive Attained : Engine → Prop where
  | fresh (settings : Settings) (context : Context ExecutedStep) :
      Attained { settings := settings, context := context }
  | described {e e' : Engine} {c : Construction} (h : Attained e) (hproper : c.Proper)
      (hc : e.construct c = .ok e') : Attained e'
  | begun {e : Engine} (h : Attained e) : Attained { e with stage := .executing }
  | ended {e : Engine} (h : Attained e) (step : Step) (outcome : Except Fault StepResult) :
      Attained (e.finish step outcome)
  | renewed {e : Engine} (h : Attained e) : Attained e.afresh
  | noted {e : Engine} (h : Attained e) (context : Context ExecutedStep) :
      Attained { e with context := context }

theorem Attained.stable : Stable Attained := ⟨.begun, .ended, .renewed, .noted⟩

theorem Attained.callAll {σ : Type} {run : Runner σ} {e : Engine} (h : e.Attained)
    (hrun : run.Preserves Attained) (world : σ) {calls : List Call}
    (hcalls : ∀ c, .construct c ∈ calls → c.Proper) : (e.callAll run world calls).1.Attained :=
  stable.callAll hrun (fun h hproper hc => .described h hproper hc) h world hcalls

/-- Whether the step under description, if there is one, is valid. -/
def Valid (e : Engine) : Prop := ∀ step, e.current = some step → step.Valid

variable {e e' : Engine}

theorem Valid.stable : Stable Valid where
  begun h := h
  ended h _ outcome := by cases outcome <;> exact h
  renewed _ step hstep := by cases hstep
  noted h _ := h

theorem Valid.construct (h : e.Valid) {c : Construction} (hproper : c.Proper)
    (hc : e.construct c = .ok e') : e'.Valid := by
  cases hentry : c.isEntry with
  | true =>
    obtain ⟨-, ⟨draft, hdraft, hstart⟩ | ⟨properties, rfl⟩⟩ := construct_begins hentry hc
    · obtain ⟨step, hbuild, rfl⟩ := map_eq_ok.mp hstart
      intro found hfound
      obtain rfl : step = found := Option.some.inj hfound
      exact hdraft.valid hbuild
    · exact h
  | false =>
    obtain ⟨operation, accepted, changes, hchanges, hevolve⟩ := construct_amends hentry hc
    obtain ⟨old, new, hold, hnew, rfl⟩ := evolve_ok hevolve
    obtain ⟨-, hcurrent, -⟩ := require_ok hold
    have hdraft := (h old hcurrent).vetted.setAll hproper hchanges
    intro found hfound
    obtain rfl : new = found := Option.some.inj hfound
    exact hdraft.valid (Step.build_of_evolve hnew)

theorem Attained.valid (h : e.Attained) : e.Valid := by
  induction h with
  | fresh settings context =>
    intro step hstep
    cases hstep
  | described _ hproper hc ih => exact ih.construct hproper hc
  | begun _ ih => exact Valid.stable.begun ih
  | ended _ step outcome ih => exact Valid.stable.ended ih step outcome
  | renewed _ ih => exact Valid.stable.renewed ih
  | noted _ context ih => exact Valid.stable.noted ih context

end Engine

end Rehearsal
