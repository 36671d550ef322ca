import Mathlib.Algebra.Ring.Nat
import Mathlib.Data.List.Basic
import Mathlib.Logic.Relation
import Rehearsal.Execution.Errand

/-! How often and when a client is released. At any moment of an errand one party owes the release
of a client that belongs to the step: the step itself, the end of the task that the release hangs
on, or who waits for the tasks that are left. Each move hands the duty on or begins the release, and
it begins only where every task is over. So the client is released once, after all that is done with
it, and a client that is shared never is. -/

namespace Rehearsal

namespace Happening

def released? : Happening → Option ClientEvent
  | .released event => some event
  | _ => none

def isRelease (happening : Happening) : Bool := happening.released?.isSome

def began? : Happening → Option Nat
  | .began i => some i
  | _ => none

end Happening

/-- How much a task still does at most. -/
def Task.effort : Task → Nat
  | .waiting calls => calls + 2
  | .running calls => calls + 1
  | _ => 0

namespace Task

variable {i : Nat} {task next : Task} {happening : Happening}

theorem Goes.not_over (h : task.Goes i next happening) : task.isOver = false := by
  cases h <;> rfl

theorem Goes.not_release (h : task.Goes i next happening) : happening.released? = none := by
  cases h <;> rfl

theorem Goes.begun (h : task.Goes i next happening) :
    (∀ j, .began j = happening → j = i) ∧
      (.began i = happening ∨ (∃ calls, task = .running calls) →
        .ended i = happening ∨ ∃ calls, next = .running calls) := by
  cases h <;> simp

theorem Goes.effort_lt (h : task.Goes i next happening) : next.effort < task.effort := by
  cases h <;> simp [effort]

theorem isOver_drop (h : task.isOver = true) : task.drop = task := by
  cases task with
  | waiting calls => cases h
  | _ => rfl

end Task

/-- How much a step still does at most that has handed out `n` tasks, the tasks that it is to hand
out with it. -/
def Phase.effort (n : Nat) : Phase → Nat
  | .handing rest => (rest.map (· + 5)).sum + 2 * n + 6
  | .hooking => 2 * n + 5
  | .waiting => 2 * n + 4
  | .dropping rest => rest.length + n + 3
  | .looking next _ => n - next + 2
  | .done => 0

/-- Whether the step itself owes the release of a client of its own. -/
def Phase.owes (drops : Bool) : Phase → Bool
  | .waiting => drops
  | .done => false
  | _ => true

namespace Errand

variable {e : Errand} {s s' : State}

namespace State

/-- What was done of the release. -/
def released (s : State) : List ClientEvent := s.log.filterMap Happening.released?

/-- What was done of the release, with what is begun of it. -/
def settled (s : State) : List ClientEvent := s.released ++ s.left

theorem isIdle_iff : s.isIdle = true ↔ ∀ i, s.isOver i = true := by
  simp only [isIdle, isOver, List.all_eq_true]
  constructor
  · intro h i
    cases hi : s.tasks[i]? with
    | none => rfl
    | some task => exact h task (List.mem_of_getElem? hi)
  · intro h task hmem
    obtain ⟨i, hi⟩ := List.mem_iff_getElem?.mp hmem
    have hover := h i
    rwa [hi] at hover

theorem not_isIdle {i : Nat} {task : Task} (h : s.tasks[i]? = some task)
    (ht : task.isOver = false) : s.isIdle = false := by
  cases hidle : s.isIdle with
  | false => rfl
  | true =>
    have hover := isIdle_iff.mp hidle i
    rw [isOver, h, Option.all_some, ht] at hover
    cases hover

theorem isOver_set {i : Nat} {task next : Task} (h : s.tasks[i]? = some task)
    (ht : task.isOver = false) {j : Nat} (hj : s.isOver j = true) :
    State.isOver { s with tasks := s.tasks.set i next } j = true := by
  have hne : i ≠ j := by
    rintro rfl
    rw [isOver, h, Option.all_some, ht] at hj
    cases hj
  rwa [isOver, List.getElem?_set_ne hne]

theorem unhook_cases (s : State) (e : Errand) :
    (s.hooked = true ∧ s.isIdle = true ∧ s.unhook e = s.release e) ∨
      ((s.hooked && s.isIdle) = false ∧ s.unhook e = s) := by
  rw [unhook]
  cases hhooked : s.hooked <;> cases hidle : s.isIdle <;> simp

@[simp] theorem unhook_tasks (s : State) (e : Errand) : (s.unhook e).tasks = s.tasks := by
  rw [unhook]
  split <;> rfl

@[simp] theorem unhook_phase (s : State) (e : Errand) : (s.unhook e).phase = s.phase := by
  rw [unhook]
  split <;> rfl

@[simp] theorem unhook_watched (s : State) (e : Errand) : (s.unhook e).watched = s.watched := by
  rw [unhook]
  split <;> rfl

@[simp] theorem unhook_log (s : State) (e : Errand) : (s.unhook e).log = s.log := by
  rw [unhook]
  split <;> rfl

/-- How many parties owe the release: the step, the end of the tasks, and who waits for them. -/
def owing (s : State) (e : Errand) : Nat :=
  (e.owned && s.phase.owes e.drops).toNat + (s.hooked && !s.isIdle).toNat +
    (!s.watched.isEmpty).toNat

end State

/-- What holds of the moments of an errand, whatever is released. -/
structure Shaped (e : Errand) (s : State) : Prop where
  hooking : s.phase = .hooking → e.owned = true ∧ e.drops = false
  hooked : s.hooked = true → e.drops = false ∧ (s.phase = .waiting ∨ s.phase = .done)
  dropping : ∀ rest, s.phase = .dropping rest → e.drops = true
  looking : ∀ next found, s.phase = .looking next found → e.owned = true ∧ e.drops = true ∧
    next ≤ s.tasks.length ∧ ∀ i < next, i ∉ found → s.isOver i = true
  watched : s.watched ≠ [] → s.phase = .done ∧ ∀ i, i ∉ s.watched → s.isOver i = true

theorem shaped_start (e : Errand) : e.Shaped e.start :=
  ⟨nofun, nofun, nofun, nofun, fun h => absurd rfl h⟩

theorem Shaped.unhook (h : e.Shaped s) : e.Shaped (s.unhook e) := by
  rcases s.unhook_cases e with ⟨-, -, heq⟩ | ⟨-, heq⟩
  · rw [heq]
    exact ⟨h.hooking, h.hooked, h.dropping, h.looking, h.watched⟩
  · rwa [heq]

theorem Shaped.unwatched (h : e.Shaped s) (hp : s.phase ≠ .done) : s.watched = [] := by
  by_contra hw
  exact hp (h.watched hw).1

theorem Shaped.unhooked (h : e.Shaped s) (hw : s.phase ≠ .waiting) (hp : s.phase ≠ .done) :
    s.hooked = false := by
  cases hhooked : s.hooked with
  | false => rfl
  | true => exact absurd (h.hooked hhooked).2 (by simp [hw, hp])

/-- Nobody but the step owes the release as long as the step has not come to wait. -/
theorem Shaped.alone (h : e.Shaped s) (hw : s.phase ≠ .waiting) (hp : s.phase ≠ .done) :
    s.hooked = false ∧ s.watched = [] :=
  ⟨h.unhooked hw hp, h.unwatched hp⟩

theorem Shaped.moves (h : e.Shaped s) (hm : e.Moves s s') : e.Shaped s' := by
  cases hm with
  | hand hp =>
    obtain ⟨hh, hw⟩ := h.alone (by simp [hp]) (by simp [hp])
    exact ⟨nofun, by simp [hh], nofun, nofun, by simp [hw]⟩
  | handed hp =>
    obtain ⟨hh, hw⟩ := h.alone (by simp [hp]) (by simp [hp])
    refine ⟨?_, by simp [hh], ?_, ?_, by simp [hw]⟩
    all_goals cases e.owned <;> cases e.drops <;> simp
  | hook hp =>
    have hw := h.unwatched (by simp [hp])
    refine Shaped.unhook ⟨nofun, ?_, nofun, nofun, by simp [hw]⟩
    exact fun _ => ⟨(h.hooking hp).2, .inl rfl⟩
  | resume hp =>
    have hw := h.unwatched (by simp [hp])
    cases hdrops : e.drops with
    | true =>
      have hh : s.hooked = false := by
        cases hhooked : s.hooked with
        | false => rfl
        | true => exact absurd (h.hooked hhooked).1 (by simp [hdrops])
      exact ⟨nofun, by simp [hh], fun _ _ => hdrops, nofun, by simp [hw]⟩
    | false => exact ⟨nofun, fun hh => ⟨hdrops, .inr rfl⟩, nofun, nofun, by simp [hw]⟩
  | drop hp hi =>
    obtain ⟨hh, hw⟩ := h.alone (by simp [hp]) (by simp [hp])
    exact Shaped.unhook ⟨nofun, by simp [hh], fun _ _ => h.dropping _ hp, nofun, by simp [hw]⟩
  | dropped hp =>
    obtain ⟨hh, hw⟩ := h.alone (by simp [hp]) (by simp [hp])
    cases howned : e.owned with
    | true =>
      refine ⟨nofun, by simp [hh], nofun, ?_, by simp [hw]⟩
      rintro next found ⟨⟩
      exact ⟨howned, h.dropping _ hp, Nat.zero_le _, by simp⟩
    | false => exact ⟨nofun, by simp [hh], nofun, nofun, by simp [hw]⟩
  | @look i found hp hi =>
    obtain ⟨hh, hw⟩ := h.alone (by simp [hp]) (by simp [hp])
    obtain ⟨howned, hdrops, -, hseen⟩ := h.looking i found hp
    refine ⟨nofun, by simp [hh], nofun, ?_, by simp [hw]⟩
    rintro next seen ⟨⟩
    refine ⟨howned, hdrops, hi, fun j hj hmem => ?_⟩
    rcases Nat.lt_succ_iff_lt_or_eq.mp hj with hj | rfl
    · exact hseen j hj fun hin => hmem (by split <;> simp [hin])
    · cases hover : s.isOver j with
      | true => exact hover
      | false => simp [hover] at hmem
  | clear hp =>
    obtain ⟨hh, hw⟩ := h.alone (by simp [hp]) (by simp [hp])
    exact ⟨nofun, by simp [State.release, hh], nofun, nofun, by simp [State.release, hw]⟩
  | @leave found hp hf =>
    have hh := h.unhooked (by simp [hp]) (by simp [hp])
    obtain ⟨-, -, -, hseen⟩ := h.looking _ found hp
    -- A task that is not among those left was seen to be over, and stays over.
    refine ⟨nofun, by simp [hh], nofun, nofun, fun _ => ⟨rfl, fun i hi => ?_⟩⟩
    by_cases hlt : i < s.tasks.length
    · exact hseen i hlt hi
    · simp [State.isOver, List.getElem?_eq_none (Nat.le_of_not_lt hlt)]
  | shed hp hs ht =>
    refine Shaped.unhook ⟨h.hooking, h.hooked, h.dropping, by simp [hp], fun hw => ?_⟩
    exact ⟨hp, fun i hi => State.isOver_set ht rfl ((h.watched hw).2 i hi)⟩
  | work ht hg =>
    refine Shaped.unhook ⟨h.hooking, h.hooked, h.dropping, ?_, ?_⟩
    · intro next found hp
      obtain ⟨howned, hdrops, hle, hseen⟩ := h.looking next found hp
      refine ⟨howned, hdrops, by simpa using hle, fun i hi hmem => ?_⟩
      exact State.isOver_set ht hg.not_over (hseen i hi hmem)
    · intro hw
      obtain ⟨hp, hover⟩ := h.watched hw
      exact ⟨hp, fun i hi => State.isOver_set ht hg.not_over (hover i hi)⟩
  | settle hw hover => exact ⟨h.hooking, h.hooked, h.dropping, h.looking, fun hne => absurd rfl hne⟩
  | part hl => exact ⟨h.hooking, h.hooked, h.dropping, h.looking, h.watched⟩

/-- How a move hands the duty on: it stays where it is or goes from one party to another, or the
release is begun, where every task is over, and one party less owes it. -/
def HandsOn (e : Errand) (owing : Nat) (settled : List ClientEvent) (s' : State) : Prop :=
  (s'.settled = settled ∧ s'.owing e = owing) ∨
    (s'.settled = settled ++ e.parting ∧ s'.owing e + 1 = owing ∧ s'.isIdle = true)

theorem handsOn_unhook (s : State) :
    e.HandsOn ((e.owned && s.phase.owes e.drops).toNat + s.hooked.toNat +
      (!s.watched.isEmpty).toNat) s.settled (s.unhook e) := by
  rcases s.unhook_cases e with ⟨hhooked, hidle, heq⟩ | ⟨hnot, heq⟩
  · refine .inr ⟨by rw [heq]; simp [State.settled, State.release, State.released], ?_, ?_⟩
    · rw [heq]
      have hidle' : (s.release e).isIdle = true := hidle
      simp only [State.owing, hidle', hhooked]
      simp [State.release]
      omega
    · rw [heq]
      exact hidle
  · refine .inl ⟨by rw [heq], ?_⟩
    rw [heq, State.owing]
    cases hhooked : s.hooked with
    | false => rfl
    | true =>
      have hidle : s.isIdle = false := by simpa [hhooked] using hnot
      simp [hidle]

theorem Shaped.handsOn (h : e.Shaped s) (hm : e.Moves s s') :
    e.HandsOn (s.owing e) s.settled s' := by
  cases hm with
  | hand hp =>
    have hh := h.unhooked (by simp [hp]) (by simp [hp])
    exact .inl ⟨rfl, by simp [State.owing, hp, hh, Phase.owes]⟩
  | handed hp =>
    have hh := h.unhooked (by simp [hp]) (by simp [hp])
    refine .inl ⟨rfl, ?_⟩
    cases howned : e.owned <;> cases hdrops : e.drops <;>
      simp [State.owing, hp, hh, howned, hdrops, Phase.owes]
  | hook hp =>
    obtain ⟨howned, hdrops⟩ := h.hooking hp
    have hh := h.unhooked (by simp [hp]) (by simp [hp])
    have hon := e.handsOn_unhook { s with phase := .waiting, hooked := true }
    rwa [show s.owing e = _ from ?_]
    simp [State.owing, hp, hh, howned, hdrops, Phase.owes]
  | resume hp =>
    refine .inl ⟨rfl, ?_⟩
    cases hdrops : e.drops <;> simp [State.owing, hp, hdrops, Phase.owes, State.isIdle]
  | @drop rest i hp hi =>
    have hh := h.unhooked (by simp [hp]) (by simp [hp])
    have hon := e.handsOn_unhook
      { s with phase := .dropping (rest.erase i), tasks := s.tasks.modify i Task.drop }
    rwa [show s.owing e = _ from ?_]
    simp [State.owing, hp, hh, Phase.owes]
  | dropped hp =>
    have hh := h.unhooked (by simp [hp]) (by simp [hp])
    refine .inl ⟨rfl, ?_⟩
    cases howned : e.owned <;> simp [State.owing, hp, hh, howned, Phase.owes]
  | look hp hi =>
    have hh := h.unhooked (by simp [hp]) (by simp [hp])
    exact .inl ⟨rfl, by simp [State.owing, hp, hh, Phase.owes]⟩
  | clear hp =>
    obtain ⟨hh, hw⟩ := h.alone (by simp [hp]) (by simp [hp])
    obtain ⟨howned, -, -, hseen⟩ := h.looking _ _ hp
    -- every task was seen to be over
    refine .inr ⟨by simp [State.settled, State.release, State.released], ?_, ?_⟩
    · simp [State.owing, State.release, hp, hh, hw, howned, Phase.owes]
    · refine State.isIdle_iff.mpr fun i => ?_
      by_cases hlt : i < s.tasks.length
      · exact hseen i hlt List.not_mem_nil
      · simp [State.isOver, State.release, List.getElem?_eq_none (Nat.le_of_not_lt hlt)]
  | leave hp hf =>
    obtain ⟨hh, hw⟩ := h.alone (by simp [hp]) (by simp [hp])
    have howned := (h.looking _ _ hp).1
    exact .inl ⟨rfl, by simp [State.owing, hp, hh, hw, hf, howned, Phase.owes]⟩
  | @work i task next happening ht hg =>
    -- The task is not over yet, so the end of the tasks still owes whatever hangs on it.
    have hbusy := State.not_isIdle ht hg.not_over
    have hon := e.handsOn_unhook
      { s with tasks := s.tasks.set i next, log := s.log ++ [happening] }
    rw [show s.owing e = _ from ?_, show s.settled = _ from ?_]
    · exact hon
    · simp [State.settled, State.released, hg.not_release]
    · simp [State.owing, hbusy]
  | @shed i calls hp hs ht =>
    have hbusy := State.not_isIdle ht rfl
    have hon := e.handsOn_unhook { s with tasks := s.tasks.set i .dropped }
    rwa [show s.owing e = _ from ?_]
    simp [State.owing, hbusy]
  | settle hw hover =>
    obtain ⟨hp, hrest⟩ := h.watched hw
    have hidle : s.isIdle = true := State.isIdle_iff.mpr fun i => by
      by_cases hi : i ∈ s.watched
      · exact hover i hi
      · exact hrest i hi
    refine .inr ⟨by simp [State.settled, State.release, State.released], ?_, hidle⟩
    have hover' : s.tasks.all Task.isOver = true := hidle
    have hwatched : s.watched.isEmpty = false := List.isEmpty_eq_false_iff.mpr hw
    simp [State.owing, State.release, State.isIdle, hover', hp, hwatched, Phase.owes]
  | part hl =>
    refine .inl ⟨?_, rfl⟩
    simp [State.settled, State.released, Happening.released?, hl]

theorem isIdle_moves (howned : e.owned = true) (hnone : s.owing e = 0) (hidle : s.isIdle = true)
    (hm : e.Moves s s') : s'.isIdle = true := by
  have hphase : s.phase.owes e.drops = false := by
    cases howes : s.phase.owes e.drops with
    | false => rfl
    | true => simp [State.owing, howned, howes] at hnone
  cases hm with
  | hand hp => simp [hp, Phase.owes] at hphase
  | handed hp => simp [hp, Phase.owes] at hphase
  | hook hp => simp [hp, Phase.owes] at hphase
  | resume hp => exact hidle
  | drop hp hi => simp [hp, Phase.owes] at hphase
  | dropped hp => simp [hp, Phase.owes] at hphase
  | look hp hi => simp [hp, Phase.owes] at hphase
  | clear hp => simp [hp, Phase.owes] at hphase
  | leave hp hf => simp [hp, Phase.owes] at hphase
  | work ht hg => simp [State.not_isIdle ht hg.not_over] at hidle
  | shed hp hs ht => simp [State.not_isIdle ht rfl] at hidle
  | settle hw hover => exact hidle
  | part hl => exact hidle

/-- What holds at every moment of an errand. -/
structure Sound (e : Errand) (s : State) : Prop where
  shaped : e.Shaped s
  /-- The release is owed by one, or it was begun once and nobody owes it any more. -/
  owed : (s.settled = [] ∧ s.owing e = e.owned.toNat) ∨
    (s.settled = e.parting ∧ e.owned = true ∧ s.owing e = 0 ∧ s.isIdle = true)
  last : s.log.Pairwise fun a b => a.isRelease = true → b.isRelease = true
  begun : ∀ i, .began i ∈ s.log →
    .ended i ∈ s.log ∨ ∃ calls, s.tasks[i]? = some (.running calls)

theorem sound_start (e : Errand) : e.Sound e.start := by
  refine ⟨shaped_start e, .inl ⟨rfl, ?_⟩, List.Pairwise.nil, fun i hi => (by cases hi)⟩
  cases howned : e.owned <;> simp [State.owing, start, howned, Phase.owes]

/-- Nothing is released while a task is not over. -/
theorem Sound.unreleased (h : e.Sound s) (hbusy : s.isIdle = false) :
    ∀ happening ∈ s.log, happening.isRelease = false := by
  rcases h.owed with ⟨hnone, -⟩ | ⟨-, -, -, hidle⟩
  · have hreleased : s.released = [] := (List.append_eq_nil_iff.mp hnone).1
    intro happening hmem
    rw [Happening.isRelease, List.filterMap_eq_nil_iff.mp hreleased happening hmem]
    rfl
  · rw [hidle] at hbusy
    cases hbusy

theorem Sound.owed_moves (h : e.Sound s) (hm : e.Moves s s') :
    (s'.settled = [] ∧ s'.owing e = e.owned.toNat) ∨
      (s'.settled = e.parting ∧ e.owned = true ∧ s'.owing e = 0 ∧ s'.isIdle = true) := by
  -- the release is begun at most once, as one party owes it at first
  rcases h.shaped.handsOn hm with ⟨hsame, howing⟩ | ⟨hbegun, howing, hidle⟩
  · rw [hsame, howing]
    rcases h.owed with hbefore | ⟨hsettled, howned, hnone, hidle⟩
    · exact .inl hbefore
    · exact .inr ⟨hsettled, howned, hnone, isIdle_moves howned hnone hidle hm⟩
  · rcases h.owed with ⟨hnone, hone⟩ | ⟨-, -, hnone, -⟩
    · cases howned : e.owned with
      | false =>
        rw [howned] at hone
        simp only [Bool.toNat_false] at hone
        omega
      | true =>
        rw [howned] at hone
        simp only [Bool.toNat_true] at hone
        exact .inr ⟨by rw [hbegun, hnone, List.nil_append], rfl, by omega, hidle⟩
    · omega

theorem Sound.last_moves (h : e.Sound s) (hm : e.Moves s s') :
    s'.log.Pairwise fun a b => a.isRelease = true → b.isRelease = true := by
  cases hm with
  | work ht hg =>
    rw [State.unhook_log]
    have hbefore := h.unreleased (State.not_isIdle ht hg.not_over)
    refine List.pairwise_append.mpr ⟨h.last, List.pairwise_singleton _ _, ?_⟩
    intro a ha b hb hrelease
    rw [hbefore a ha] at hrelease
    cases hrelease
  | part hl =>
    refine List.pairwise_append.mpr ⟨h.last, List.pairwise_singleton _ _, ?_⟩
    intro a ha b hb hrelease
    rw [List.mem_singleton.mp hb]
    rfl
  | hook hp => simpa using h.last
  | drop hp hi => simpa using h.last
  | shed hp hs ht => simpa using h.last
  | _ => exact h.last

theorem Sound.begun_moves (h : e.Sound s) (hm : e.Moves s s') : ∀ i, .began i ∈ s'.log →
    .ended i ∈ s'.log ∨ ∃ calls, s'.tasks[i]? = some (.running calls) := by
  intro i hi
  cases hm with
  | hand hp =>
    refine (h.begun i hi).imp_right fun ⟨calls, hrunning⟩ => ⟨calls, ?_⟩
    rw [List.getElem?_append_left (List.getElem?_eq_some_iff.mp hrunning).1, hrunning]
  | hook hp => simpa using h.begun i (by simpa using hi)
  | @drop rest j hp hj =>
    rw [State.unhook_log] at hi ⊢
    rw [State.unhook_tasks]
    refine (h.begun i hi).imp_right fun ⟨calls, hrunning⟩ => ⟨calls, ?_⟩
    rw [List.getElem?_modify, hrunning]
    by_cases hij : j = i <;> simp [hij, Task.drop]
  | @work j task next happening ht hg =>
    rw [State.unhook_log] at hi ⊢
    rw [State.unhook_tasks]
    obtain ⟨hown, hgoes⟩ := hg.begun
    -- only the task that goes on can come to its end
    by_cases hij : i = j
    · subst hij
      have hlt : i < s.tasks.length := (List.getElem?_eq_some_iff.mp ht).1
      rw [List.getElem?_set_self hlt, List.mem_append, List.mem_singleton]
      have hnow : .ended i ∈ s.log ∨ .began i = happening ∨ ∃ calls, task = .running calls := by
        rcases List.mem_append.mp hi with hbefore | hbegins
        · refine (h.begun i hbefore).imp_right fun ⟨calls, hrunning⟩ => .inr ⟨calls, ?_⟩
          exact Option.some.inj (ht.symm.trans hrunning)
        · exact .inr (.inl (List.mem_singleton.mp hbegins))
      rcases hnow with hended | hgoing
      · exact .inl (.inl hended)
      · exact (hgoes hgoing).imp .inr fun ⟨calls, hnext⟩ => ⟨calls, congrArg some hnext⟩
    · have hbefore : .began i ∈ s.log := (List.mem_append.mp hi).resolve_right fun hbegins =>
        hij (hown i (List.mem_singleton.mp hbegins))
      rw [List.getElem?_set_ne (Ne.symm hij), List.mem_append]
      exact (h.begun i hbefore).imp_left .inl
  | @shed j calls hp hs ht =>
    rw [State.unhook_log] at hi ⊢
    rw [State.unhook_tasks]
    refine (h.begun i hi).imp_right fun ⟨calls', hrunning⟩ => ⟨calls', ?_⟩
    have hne : j ≠ i := by
      rintro rfl
      rw [ht] at hrunning
      cases hrunning
    rw [List.getElem?_set_ne hne, hrunning]
  | part hl =>
    have hbefore : .began i ∈ s.log := by simpa using hi
    exact (h.begun i hbefore).imp_left fun hended => List.mem_append_left _ hended
  | _ => exact h.begun i hi

theorem Sound.moves (h : e.Sound s) (hm : e.Moves s s') : e.Sound s' :=
  ⟨h.shaped.moves hm, h.owed_moves hm, h.last_moves hm, h.begun_moves hm⟩

theorem sound_of_reachable (h : Relation.ReflTransGen e.Moves e.start s) : e.Sound s := by
  induction h with
  | refl => exact sound_start e
  | tail _ hm ih => exact ih.moves hm

/-- What is released at any moment is a beginning of what is released of a client that belongs to
the step alone. -/
theorem Sound.released_prefix (h : e.Sound s) :
    s.released <+: if e.owned then e.parting else [] := by
  rcases h.owed with ⟨hnone, -⟩ | ⟨hsettled, howned, -⟩
  · rw [(List.append_eq_nil_iff.mp hnone).1]
    exact List.nil_prefix
  · rw [if_pos howned]
    exact ⟨s.left, hsettled⟩

/-- Once anything is released nothing but releases comes, and whatever began has come to its end
before. -/
theorem Sound.released_last (h : e.Sound s) {before after : List Happening} {event : ClientEvent}
    (hlog : s.log = before ++ .released event :: after) :
    (∀ happening ∈ after, happening.isRelease = true) ∧
      ∀ i, .began i ∈ before → .ended i ∈ before := by
  have hlast := h.last
  rw [hlog] at hlast
  have hafter : ∀ happening ∈ after, happening.isRelease = true := fun happening hmem =>
    (List.pairwise_cons.mp (List.pairwise_append.mp hlast).2.1).1 happening hmem rfl
  refine ⟨hafter, fun i hi => ?_⟩
  have hmem : Happening.released event ∈ s.log := by simp [hlog]
  have hidle : s.isIdle = true := by
    cases hbusy : s.isIdle with
    | true => rfl
    | false => cases h.unreleased hbusy _ hmem
  rcases h.begun i (by rw [hlog]; exact List.mem_append_left _ hi) with hended | ⟨calls, hrunning⟩
  · rw [hlog, List.mem_append, List.mem_cons] at hended
    rcases hended with hbefore | heq | hlate
    · exact hbefore
    · cases heq
    · cases hafter _ hlate
  · rw [State.not_isIdle hrunning rfl] at hidle
    cases hidle

def State.Still (s : State) (e : Errand) : Prop := ∀ s', ¬ e.Moves s s'

/-- Where nothing more can happen the step is done, and so is every task and every release. -/
theorem Shaped.still (h : e.Shaped s) (hs : s.Still e) :
    s.phase = .done ∧ s.isIdle = true ∧ s.watched = [] ∧ s.left = [] := by
  have hidle : s.isIdle = true := by
    rw [State.isIdle, List.all_eq_true]
    intro task hmem
    obtain ⟨i, hi⟩ := List.mem_iff_getElem?.mp hmem
    cases task with
    | waiting calls => exact absurd (.work hi (.begin calls)) (hs _)
    | running calls => exact absurd (.work hi (.finish calls)) (hs _)
    | ended => rfl
    | dropped => rfl
  -- in any other phase the step could go on
  refine ⟨?_, hidle, ?_, ?_⟩
  · cases hp : s.phase with
    | handing rest =>
      cases rest with
      | nil => exact absurd (.handed hp) (hs _)
      | cons calls rest => exact absurd (.hand hp) (hs _)
    | hooking => exact absurd (.hook hp) (hs _)
    | waiting => exact absurd (.resume hp) (hs _)
    | dropping rest =>
      cases rest with
      | nil => exact absurd (.dropped hp) (hs _)
      | cons i rest => exact absurd (.drop hp List.mem_cons_self) (hs _)
    | looking next found =>
      rcases Nat.lt_or_eq_of_le (h.looking next found hp).2.2.1 with hlt | rfl
      · exact absurd (.look hp hlt) (hs _)
      · cases found with
        | nil => exact absurd (.clear hp) (hs _)
        | cons i found => exact absurd (.leave hp (List.cons_ne_nil _ _)) (hs _)
    | done => rfl
  · by_contra hw
    exact hs _ (.settle hw fun i _ => State.isIdle_iff.mp hidle i)
  · cases hl : s.left with
    | nil => rfl
    | cons event rest => exact absurd (.part hl) (hs _)

/-- Where nothing more can happen a client that belongs to the step is released, and no other. -/
theorem Sound.released_still (h : e.Sound s) (hs : s.Still e) :
    s.released = if e.owned then e.parting else [] := by
  obtain ⟨hphase, hidle, hwatched, hleft⟩ := h.shaped.still hs
  have hsettled : s.settled = s.released := by rw [State.settled, hleft, List.append_nil]
  rw [← hsettled]
  rcases h.owed with ⟨hnone, howing⟩ | ⟨hparting, howned, -⟩
  · have hnobody : s.owing e = 0 := by simp [State.owing, hphase, hidle, hwatched, Phase.owes]
    have howned : e.owned = false := by
      cases howned : e.owned with
      | false => rfl
      | true => simp [howned, hnobody] at howing
    rw [hnone, if_neg (by simp [howned])]
  · rw [hparting, if_pos howned]

/-! An errand comes to an end. -/

/-- How much there is still to be done at most, releases apart. -/
def State.effort (s : State) : Nat :=
  s.phase.effort s.tasks.length + (s.tasks.map Task.effort).sum + (!s.watched.isEmpty).toNat

@[simp] theorem unhook_effort (s : State) (e : Errand) : (s.unhook e).effort = s.effort := by
  simp [State.effort]

theorem effort_set {tasks : List Task} {i : Nat} {task next : Task} (h : tasks[i]? = some task)
    (hless : next.effort < task.effort) :
    ((tasks.set i next).map Task.effort).sum < (tasks.map Task.effort).sum := by
  obtain ⟨hlt, rfl⟩ := List.getElem?_eq_some_iff.mp h
  obtain ⟨before, after, heq, -, hset⟩ : ∃ before after : List Task,
      tasks = before ++ tasks[i] :: after ∧ before.length = i ∧
        tasks.set i next = before ++ next :: after := List.exists_of_set hlt
  rw [hset]
  conv_rhs => rw [heq]
  simp only [List.map_append, List.map_cons, List.sum_append, List.sum_cons]
  omega

theorem effort_drop (tasks : List Task) (i : Nat) :
    ((tasks.modify i Task.drop).map Task.effort).sum ≤ (tasks.map Task.effort).sum := by
  induction tasks generalizing i with
  | nil => simp
  | cons task tasks ih =>
    cases i with
    | zero =>
      have hdrop : task.drop.effort ≤ task.effort := by cases task <;> simp [Task.drop, Task.effort]
      simpa using hdrop
    | succ i => simpa using ih i

/-- A move takes of what is still to be done, or of a release that was begun. -/
theorem Moves.effort (hm : e.Moves s s') :
    s'.effort < s.effort ∨ (s'.effort = s.effort ∧ s'.left.length < s.left.length) := by
  cases hm with
  | hand hp =>
    -- What the task may do goes from the step to the task.
    refine .inl ?_
    simp only [State.effort, hp, Phase.effort, List.map_append, List.map_cons, List.map_nil,
      List.sum_append, List.sum_cons, List.sum_nil, List.length_append, List.length_cons,
      List.length_nil, Task.effort]
    omega
  | handed hp =>
    refine .inl ?_
    simp only [State.effort, hp]
    split <;> simp [Phase.effort]
  | hook hp =>
    refine .inl ?_
    rw [unhook_effort]
    simp [State.effort, hp, Phase.effort]
  | resume hp =>
    refine .inl ?_
    have hpending : s.pending.length ≤ s.tasks.length := by
      simpa [State.pending] using List.length_filter_le (fun i => !s.isOver i)
        (List.range s.tasks.length)
    simp only [State.effort, hp]
    split
    · simp only [Phase.effort]
      omega
    · simp [Phase.effort]
  | @drop rest i hp hi =>
    refine .inl ?_
    have hrest : (rest.erase i).length < rest.length := by
      rw [List.length_erase_of_mem hi]
      have hpos := List.length_pos_of_mem hi
      omega
    have htasks := effort_drop s.tasks i
    rw [unhook_effort]
    simp only [State.effort, hp, Phase.effort, List.length_modify]
    omega
  | dropped hp =>
    refine .inl ?_
    simp only [State.effort, hp]
    split <;> simp [Phase.effort]
  | look hp hi =>
    refine .inl ?_
    simp only [State.effort, hp, Phase.effort]
    omega
  | clear hp =>
    refine .inl ?_
    simp [State.effort, State.release, hp, Phase.effort]
  | @leave found hp hf =>
    refine .inl ?_
    have hone := Bool.toNat_le (!found.isEmpty)
    simp only [State.effort, hp, Phase.effort]
    omega
  | work ht hg =>
    refine .inl ?_
    have htasks := effort_set ht hg.effort_lt
    rw [unhook_effort]
    simp only [State.effort, List.length_set]
    omega
  | @shed i calls hp hs ht =>
    refine .inl ?_
    have hless : Task.effort .dropped < Task.effort (.waiting calls) := Nat.succ_pos _
    have htasks := effort_set ht hless
    rw [unhook_effort]
    simp only [State.effort, List.length_set]
    omega
  | settle hw hover =>
    refine .inl ?_
    have hwatched : s.watched.isEmpty = false := List.isEmpty_eq_false_iff.mpr hw
    simp [State.effort, State.release, hwatched]
  | part hl => exact .inr ⟨rfl, by simp [hl]⟩

/-- No errand goes on for ever. -/
theorem wellFounded_moves (e : Errand) : WellFounded fun s' s => e.Moves s s' := by
  refine Subrelation.wf ?_ (InvImage.wf (fun s : State => (s.effort, s.left.length))
    (Prod.lex Nat.lt_wfRel Nat.lt_wfRel).wf)
  intro s' s hm
  rcases Moves.effort hm with hless | ⟨hsame, hless⟩
  · exact Prod.Lex.left _ _ hless
  · show Prod.Lex _ _ (s'.effort, _) (s.effort, _)
    rw [hsame]
    exact Prod.Lex.right _ hless

theorem exists_still (e : Errand) (s : State) :
    ∃ s', Relation.ReflTransGen e.Moves s s' ∧ s'.Still e := by
  induction s using (wellFounded_moves e).induction with
  | _ s ih =>
    by_cases hs : s.Still e
    · exact ⟨s, .refl, hs⟩
    · obtain ⟨next, hm⟩ : ∃ next, e.Moves s next := by
        simpa [State.Still] using hs
      obtain ⟨s', hrun, hstill⟩ := ih next hm
      exact ⟨s', .head hm hrun, hstill⟩

end Errand

end Rehearsal
