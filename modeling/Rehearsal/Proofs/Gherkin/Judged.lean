import Rehearsal.Gherkin.Scene
import Rehearsal.Proofs.Execution.Laws
import Rehearsal.Proofs.Scenario.Pending

/-! What sentences judge. The validation that a scene keeps is that of the step which ran last, after
any sentences but those that run a step on the side: saving a step that was only described, and going
on from it by the bare word. -/

namespace Rehearsal

variable {σ : Type}

namespace Gherkin

open Engine (Settled entries)

namespace Scene

/-- Whether the validation is that of the last entry of the history, and none if there is no entry. -/
def Shows (s : Scene) : Prop :=
  s.validation = s.engine.history.getLast?.map fun executed => .forResult executed.result true

/-- What sentences do to a scene that run no step unseen. -/
def Follows (s s' : Scene) : Prop :=
  (s'.engine.history = s.engine.history ∧ s'.validation = s.validation) ∨ s'.Shows

theorem Follows.refl (s : Scene) : s.Follows s := .inl ⟨rfl, rfl⟩

theorem Follows.trans {s t u : Scene} (hst : s.Follows t) (htu : t.Follows u) : s.Follows u := by
  rcases htu with ⟨hhistory, hvalidation⟩ | hshows
  · rcases hst with ⟨hold, hkept⟩ | hshows
    · exact .inl ⟨hhistory.trans hold, hvalidation.trans hkept⟩
    · refine .inr ?_
      rw [Shows, hhistory, hvalidation]
      exact hshows
  · exact .inr hshows

theorem Follows.shows {s s' : Scene} (h : s.Follows s') (hs : s.Shows) : s'.Shows := by
  rcases h with ⟨hhistory, hvalidation⟩ | hshows
  · rw [Shows, hhistory, hvalidation]
    exact hs
  · exact hshows

end Scene

namespace Act

variable {α β : Type} {origin : Context ExecutedStep}

theorem run_bind (m : Act σ α) (f : α → Act σ β) (state : Scene × σ) :
    (m >>= f).run state =
      match m.run state with
      | (.ok a, state) => (f a).run state
      | (.error fault, state) => (.error fault, state) := by
  rw [ExceptT.run_bind]
  rcases h : m.run state with ⟨fault | a, after⟩
  · simp only [bind, StateT.bind, h]
    rfl
  · simp only [bind, StateT.bind, h]

theorem run_get_bind (f : Scene × σ → Act σ β) (state : Scene × σ) :
    ((get : Act σ (Scene × σ)) >>= f).run state = (f state).run state := by
  rw [run_bind]
  rfl

/-- Whether an act leads from each scene that calls led to to one that follows it. -/
def Honest (origin : Context ExecutedStep) (m : Act σ α) : Prop :=
  ∀ (s : Scene) (world : σ), Settled origin s.engine →
    let after := (m.run (s, world)).2.1
    Settled origin after.engine ∧ s.Follows after

theorem honest_pure (a : α) : Honest origin (pure a : Act σ α) :=
  fun s _ h => ⟨h, .refl s⟩

theorem honest_throw (fault : Fault) : Honest origin (throw fault : Act σ α) :=
  fun s _ h => ⟨h, .refl s⟩

theorem honest_part (given : Except Fault α) : Honest origin (Scene.part given : Act σ α) := by
  cases given with
  | ok a => exact honest_pure a
  | error fault => exact honest_throw fault

theorem follows_bind {m : Act σ α} {f : α → Act σ β} {s : Scene} {world : σ}
    (hm : let after := (m.run (s, world)).2.1; Settled origin after.engine ∧ s.Follows after)
    (hf : ∀ a, Honest origin (f a)) :
    let after := ((m >>= f).run (s, world)).2.1
    Settled origin after.engine ∧ s.Follows after := by
  obtain ⟨hsettled, hfollows⟩ := hm
  rw [run_bind]
  rcases hrun : m.run (s, world) with ⟨fault | a, s', world'⟩
  · rw [hrun] at hsettled hfollows
    exact ⟨hsettled, hfollows⟩
  · rw [hrun] at hsettled hfollows
    obtain ⟨hlast, hmore⟩ := hf a s' world' hsettled
    exact ⟨hlast, hfollows.trans hmore⟩

theorem Honest.bind {m : Act σ α} {f : α → Act σ β} (hm : Honest origin m)
    (hf : ∀ a, Honest origin (f a)) : Honest origin (m >>= f) :=
  fun s world h => follows_bind (hm s world h) hf

theorem honest_forIn {ι : Type} (items : List ι) {f : ι → PUnit → Act σ (ForInStep PUnit)}
    (hf : ∀ item, Honest origin (f item ⟨⟩)) :
    Honest origin (forIn items PUnit.unit f : Act σ PUnit) := by
  induction items with
  | nil => exact honest_pure _
  | cons item rest ih =>
    rw [List.forIn_cons]
    refine (hf item).bind fun next => ?_
    cases next with
    | done => exact honest_pure _
    | yield => exact ih

end Act

namespace Scene

open Act (Honest honest_pure honest_throw honest_part honest_forIn follows_bind)

variable {origin : Context ExecutedStep} {act : Executor σ} {s : Scene} {world : σ}

theorem run_call (run : Runner σ) (c : Call) (s : Scene) (world : σ) :
    (call run c).run (s, world) =
      ((s.engine.call run world c).1,
        { s with engine := (s.engine.call run world c).2.1 }, (s.engine.call run world c).2.2) := by
  rw [call, Act.run_get_bind]
  dsimp only
  rcases h : s.engine.call run world c with ⟨fault | result, engine, world'⟩
  · rfl
  · rfl

theorem follows_call (h : Settled origin s.engine) (act : Executor σ) (world : σ) {c : Call}
    (hc : (s.engine.call act.runner world c).2.1.history = s.engine.history) :
    let after := ((call act.runner c).run (s, world)).2.1
    Settled origin after.engine ∧ s.Follows after := by
  rw [run_call]
  exact ⟨h.call act world c, .inl ⟨hc, rfl⟩⟩

theorem honest_construct (c : Construction) : Honest origin (construct act.runner c) := by
  refine Honest.bind ?_ fun _ => honest_pure _
  intro s world h
  exact follows_call h act world (Engine.history_construct _ _ _ _)

theorem honest_goOn : Honest origin (goOn act.runner) := by
  intro s world h
  rw [goOn, Act.run_get_bind]
  dsimp only
  split
  · rename_i hcompleted
    have hnone : s.engine.pending act world = [] := by
      simp [Engine.pending, Engine.unrun?, hcompleted]
    refine follows_bind (follows_call h act world ?_) fun _ => honest_pure _
    rw [h.history_advance, hnone, List.append_nil]
  · exact ⟨h, .refl s⟩

/-- Running a step either leaves its validation, or fails and leaves what there was. -/
theorem run_execute (h : Settled origin s.engine) (act : Executor σ) (world : σ) :
    let after := (execute act.runner).run (s, world)
    Settled origin after.2.1.engine ∧ (after.1 = .ok () ∧ after.2.1.Shows ∨
      ∃ fault, after.1 = .error fault ∧ after.2.1.engine.history = s.engine.history ∧
        after.2.1.validation = s.validation) := by
  intro after
  have hsettled := h.call act world .execute
  obtain ⟨hanswer, hfailed⟩ := h.execute act world
  have hafter : after = match (call act.runner .execute).run (s, world) with
      | (.ok (some result), s', world') =>
        (.ok (), { s' with validation := some (.forResult result true) }, world')
      | (.ok none, s', world') => (.ok (), s', world')
      | (.error fault, s', world') => (.error fault, s', world') := by
    simp only [after, execute, Act.run_bind]
    rcases (call act.runner .execute).run (s, world) with ⟨fault | _ | result, s', world'⟩ <;> rfl
  rw [hafter, run_call]
  rcases hexecute : s.engine.execute act.runner world with ⟨fault | result, e', world'⟩
  · simp only [Engine.call, hexecute] at hsettled ⊢
    rw [hexecute] at hfailed
    exact ⟨hsettled, .inr ⟨fault, rfl, hfailed fault rfl, trivial⟩⟩
  · simp only [Engine.call, hexecute] at hsettled ⊢
    rw [hexecute] at hanswer
    refine ⟨hsettled, .inl ⟨trivial, ?_⟩⟩
    have hlast := (hanswer result rfl).1
    obtain ⟨executed, hexecuted, rfl⟩ := Option.map_eq_some_iff.mp hlast
    simp only [Shows, hexecuted, Option.map_some]

theorem honest_execute : Honest origin (execute act.runner) := by
  intro s world h
  obtain ⟨hsettled, ⟨-, hshows⟩ | ⟨-, -, hhistory, hvalidation⟩⟩ := run_execute h act world
  · exact ⟨hsettled, .inr hshows⟩
  · exact ⟨hsettled, .inl ⟨hhistory, hvalidation⟩⟩

theorem honest_judge (given : Except Fault Assertion) :
    Honest (σ := σ) origin (judge given) := by
  intro s world h
  have hsame : ((judge given).run (s, world)).2.1 = s := by
    rw [judge, Act.run_get_bind]
    dsimp only
    split
    · rfl
    · split <;> rfl
  rw [hsame]
  exact ⟨h, .refl s⟩

theorem honest_runNew (calls : List Construction) : Honest origin (runNew act.runner calls) := by
  refine Honest.bind (honest_forIn calls fun c => ?_) fun _ => honest_execute
  exact (honest_construct c).bind fun _ => honest_pure _

theorem honest_sendWithBody (method : String) (attached : Attachment) :
    Honest origin (sendWithBody act.runner method attached) := by
  rw [sendWithBody]
  dsimp only
  split
  · exact honest_throw _
  · refine (honest_part _).bind fun body => ?_
    exact (honest_construct _).bind fun _ => honest_execute

end Scene

/-- Whether a sentence runs a step that has not run, and leaves no validation of it. -/
def Deed.Hides : Deed → Prop
  | .save _ => True
  | .send method => Word.call? (Text.lower method) = some .advance
  | _ => False

namespace Scene

variable {origin : Context ExecutedStep} {act : Executor σ} {s : Scene} {world : σ}

open Act (Honest honest_pure honest_throw honest_part honest_forIn follows_bind)

theorem run_sendBare (run : Runner σ) (method : String) (s : Scene) (world : σ) :
    (sendBare run method).run (s, world) =
      match Word.call s.engine (Text.lower method) with
      | .error fault => (.error fault, s, world)
      | .ok c => (call run c >>= fun _ => execute run).run (s, world) := by
  rw [sendBare, Act.run_get_bind]
  dsimp only
  cases Word.call s.engine (Text.lower method) <;> rfl

theorem perform_pathEquals (run : Runner σ) (attached : Attachment) (path text : String) :
    perform run attached (.pathEquals path text) =
      judge ((scalar text).map fun expected =>
        .jsonPath (Path.compile path) none .anything (some expected) none) := rfl

theorem honest_other {deed : Deed} (hsave : ∀ name, deed ≠ .save name)
    (hsend : ∀ method, deed ≠ .send method) (attached : Attachment) :
    Honest origin (perform act.runner attached deed) := by
  cases deed with
  | save name => exact absurd rfl (hsave name)
  | send method => exact absurd rfl (hsend method)
  | resource | chooseTopic => exact honest_goOn.bind fun _ => honest_construct _
  | sendBody method => exact honest_sendWithBody method attached
  | produce | produceKeyed =>
    exact honest_goOn.bind fun _ => (honest_part _).bind fun _ => honest_runNew _
  | produceBatch =>
    exact (honest_part _).bind fun _ => honest_goOn.bind fun _ => honest_runNew _
  | consume | consumeWithin | consumeBatch => exact honest_goOn.bind fun _ => honest_runNew _
  | requestHeader | queryParam | bearer | basic | apiKey => exact honest_construct _
  | statusIs | headerIs | persisted | keyIs | batchCount | succeeds | fails | pathExists =>
    exact honest_judge _
  | pathEquals path text => exact perform_pathEquals act.runner attached path text ▸ honest_judge _

theorem follows_execute (h : Settled origin s.engine) (act : Executor σ) (world : σ) :
    let after := ((call act.runner .execute >>= fun _ => execute act.runner).run (s, world)).2.1
    Settled origin after.engine ∧ s.Follows after := by
  have hsettled := h.call act world .execute
  obtain ⟨hanswer, hfailed⟩ := h.execute act world
  rw [Act.run_bind, run_call]
  rcases hexecute : s.engine.execute act.runner world with ⟨fault | result, e', world'⟩
  · simp only [Engine.call, hexecute] at hsettled ⊢
    rw [hexecute] at hfailed
    exact ⟨hsettled, .inl ⟨hfailed fault rfl, rfl⟩⟩
  · simp only [Engine.call, hexecute] at hsettled ⊢
    rw [hexecute] at hanswer
    -- the step has run by now, so running it once more only leaves the validation of its result
    have hagain := (hanswer result rfl).2 world'
    obtain ⟨hlast, ⟨-, hshows⟩ | ⟨fault, hfault, -⟩⟩ :=
      run_execute (s := { s with engine := e' }) hsettled act world'
    · exact ⟨hlast, .inr hshows⟩
    · simp only at hagain
      have hok : ((execute act.runner).run ({ s with engine := e' }, world')).1 = .ok () := by
        rw [execute, Act.run_bind, run_call]
        simp only [Engine.call, hagain]
        rfl
      rw [hok] at hfault
      cases hfault

theorem call?_of_call {e : Engine} {word : String} {c : Call} (h : Word.call e word = .ok c) :
    Word.call? word = some c := by
  rw [Word.call] at h
  split at h
  · cases h
    assumption
  all_goals cases h

theorem call?_ne_saveStep (word name : String) : Word.call? word ≠ some (.saveStep name) := by
  unfold Word.call?
  split <;> nofun

theorem pending_eq_nil (h : s.engine.unrun? = none) : s.engine.pending act world = [] := by
  rw [Engine.pending, h]
  rfl

theorem follows_send (h : Settled origin s.engine) {method : String}
    (hseen : Word.call? (Text.lower method) = some .advance → s.engine.unrun? = none) :
    let after := ((sendBare act.runner method).run (s, world)).2.1
    Settled origin after.engine ∧ s.Follows after := by
  rw [run_sendBare]
  cases hword : Word.call s.engine (Text.lower method) with
  | error fault => exact ⟨h, .refl s⟩
  | ok c =>
    -- whatever call the word makes, the sentence runs the step after it
    have hc := call?_of_call hword
    cases c with
    | execute => exact follows_execute h act world
    | construct c =>
      exact follows_bind (follows_call h act world (Engine.history_construct _ _ _ _))
        fun _ => honest_execute
    | idle => exact follows_bind (follows_call h act world rfl) fun _ => honest_execute
    | saveStep name => exact absurd hc (call?_ne_saveStep _ name)
    | advance =>
      refine follows_bind (follows_call h act world ?_) fun _ => honest_execute
      rw [h.history_advance, pending_eq_nil (hseen hc), List.append_nil]

theorem run_execute_nothing (run : Runner σ) (hb : s.engine.stage = .building)
    (hc : s.engine.current = none) (world : σ) :
    (execute run).run (s, world) =
      (.error (.configuration .nothingToExecute), s, world) := by
  rw [execute, Act.run_bind, run_call]
  simp only [Engine.call, Engine.execute, hb, hc]

/-- Whether a sentence runs the described step unseen. -/
def RunsUnseen (s : Scene) (deed : Deed) : Prop := s.engine.unrun?.isSome ∧ deed.Hides

theorem play_seen (h : Settled origin s.engine) {deed : Deed} (hseen : ¬ s.RunsUnseen deed)
    (attached : Attachment) :
    let after := (s.play act.runner world attached deed).2.1
    Settled origin after.engine ∧ s.Follows after := by
  have hunrun : deed.Hides → s.engine.unrun? = none := fun hhides =>
    Option.not_isSome_iff_eq_none.mp fun hsome => hseen ⟨hsome, hhides⟩
  by_cases hsave : ∃ name, deed = .save name
  · obtain ⟨name, rfl⟩ := hsave
    refine follows_bind (follows_call h act world ?_) fun _ => honest_pure _
    rw [h.history_saveStep, pending_eq_nil (hunrun trivial), List.append_nil]
  · by_cases hsend : ∃ method, deed = .send method
    · obtain ⟨method, rfl⟩ := hsend
      exact follows_send h hunrun
    · exact honest_other (not_exists.mp hsave) (not_exists.mp hsend) attached s world h

/-- What runs unseen is in the history, and the validation is the one there was. -/
theorem play_unseen (h : Settled origin s.engine) {deed : Deed} (hhides : deed.Hides)
    (act : Executor σ) (world : σ) (attached : Attachment) :
    let after := (s.play act.runner world attached deed).2.1
    Settled origin after.engine ∧ after.validation = s.validation ∧
      after.engine.history = s.engine.history ++ s.engine.pending act world := by
  cases deed with
  | save name =>
    have hsaved := h.history_saveStep act world name
    have hafter : (s.play act.runner world attached (.save name)).2.1 =
        { s with engine := (s.engine.call act.runner world (.saveStep name)).2.1 } := by
      rw [play, perform, Act.run_bind, run_call]
      rcases s.engine.call act.runner world (.saveStep name) with ⟨_ | _, _, _⟩ <;> rfl
    rw [hafter]
    exact ⟨h.call act world _, rfl, hsaved⟩
  | send method =>
    have hword : Word.call s.engine (Text.lower method) = .ok .advance := by
      rw [Word.call, hhides]
    have hadvanced := h.history_advance act world
    have hsettled := h.call act world .advance
    have hafter : (s.play act.runner world attached (.send method)).2.1 =
        { s with engine := (s.engine.call act.runner world .advance).2.1 } := by
      rw [play, perform, run_sendBare, hword]
      dsimp only
      rw [Act.run_bind, run_call]
      rcases hcall : s.engine.call act.runner world .advance with ⟨fault | answer, e', world'⟩
      · rfl
      · -- nothing is described after going on, so the run that the sentence goes on to fails
        obtain ⟨hb, hc⟩ := Engine.advance_afresh hcall
        dsimp only
        rw [run_execute_nothing _ hb hc]
    rw [hafter]
    exact ⟨hsettled, rfl, hadvanced⟩
  | _ => exact hhides.elim

/-- The scene and the world after sentences, whatever comes of them. -/
def playAll (run : Runner σ) (s : Scene) (world : σ) : List (Attachment × Deed) → Scene × σ
  | [] => (s, world)
  | (attached, deed) :: rest =>
    let after := (s.play run world attached deed).2
    playAll run after.1 after.2 rest

/-- Whether none of the sentences runs a step unseen. -/
def AllSeen (run : Runner σ) (s : Scene) (world : σ) : List (Attachment × Deed) → Prop
  | [] => True
  | (attached, deed) :: rest =>
    ¬ s.RunsUnseen deed ∧
      let after := (s.play run world attached deed).2
      AllSeen run after.1 after.2 rest

theorem settled_playAll (h : Settled origin s.engine) (act : Executor σ) (world : σ)
    (script : List (Attachment × Deed)) :
    Settled origin (s.playAll act.runner world script).1.engine := by
  induction script generalizing s world with
  | nil => exact h
  | cons sentence rest ih =>
    obtain ⟨attached, deed⟩ := sentence
    refine ih ?_ _
    by_cases hunseen : s.RunsUnseen deed
    · exact (play_unseen h hunseen.2 act world attached).1
    · exact (play_seen h hunseen attached).1

theorem shows_playAll (h : Settled origin s.engine) (hshows : s.Shows)
    {script : List (Attachment × Deed)} (hseen : s.AllSeen act.runner world script) :
    (s.playAll act.runner world script).1.Shows := by
  induction script generalizing s world with
  | nil => exact hshows
  | cons sentence rest ih =>
    obtain ⟨attached, deed⟩ := sentence
    obtain ⟨hhere, hrest⟩ := hseen
    obtain ⟨hsettled, hfollows⟩ := play_seen h hhere attached
    exact ih hsettled (hfollows.shows hshows) hrest

/-- Whatever sentences are played, and whatever comes of the runs: unless one of them runs a step
unseen, the validation is that of the last entry of the history. A sentence that runs no step unseen
leaves history and validation, or the validation of the last entry. One that does adds the step to
the history and leaves the validation behind. -/
theorem judged_last (act : Executor σ) (settings : Settings) (origin : Context ExecutedStep)
    (world : σ) (script : List (Attachment × Deed)) :
    let fresh : Scene := { engine := { settings := settings, context := origin } }
    let reached := fresh.playAll act.runner world script
    (fresh.AllSeen act.runner world script → reached.1.Shows) ∧
    ∀ attached deed,
      let after := (reached.1.play act.runner reached.2 attached deed).2.1
      (¬ reached.1.RunsUnseen deed → reached.1.Follows after) ∧
      ∀ step, reached.1.engine.unrun? = some step → deed.Hides →
        after.validation = reached.1.validation ∧
        after.engine.history = reached.1.engine.history ++
          entries step (act reached.1.engine.settings step reached.2).1 := by
  intro fresh reached
  have hfresh : Settled origin fresh.engine := ⟨[], Engine.consistent_fresh settings origin⟩
  have hreached : Settled origin reached.1.engine := settled_playAll hfresh act world script
  refine ⟨fun hseen => shows_playAll hfresh rfl hseen, fun attached deed => ⟨?_, ?_⟩⟩
  · exact fun hseen => (play_seen hreached hseen attached).2
  · intro step hstep hhides
    obtain ⟨-, hvalidation, hhistory⟩ := play_unseen hreached hhides act reached.2 attached
    refine ⟨hvalidation, hhistory.trans ?_⟩
    rw [Engine.pending, hstep]
    rfl

/-- A request that is described and saved has run, and there is no validation of it. -/
theorem unjudged_saved :
    let w := World.calm (.empty 1 .persisted 0)
    let fresh : Scene := { engine := { settings := {} } }
    let described := (fresh.play World.runner w {} (.resource "http://host.test/a")).2
    let saved := described.1.play World.runner described.2 {} (.save "x")
    saved.1 = .ok () ∧ saved.2.1.engine.history.length = 1 ∧ saved.2.1.validation = none := by
  refine ⟨?_, ?_, ?_⟩ <;> rfl

end Scene

end Gherkin

end Rehearsal
