import Rehearsal.Scenario.Construction

/-!
Scenarios as sequences of calls.

A call describes a step, runs it, goes on to the next one, saves it, or does nothing. A call that
fails is answered by its fault and the scenario goes on from where that leaves it.
-/

namespace Rehearsal

inductive Call where
  | construct (construction : Construction)
  | execute
  | advance
  | saveStep (name : String)
  | idle
  deriving Repr, Inhabited

namespace Engine

variable {σ : Type}

/-- The answer to a call, with the result if it ran or showed one, and the scenario and the world
after it. -/
def call (run : Runner σ) (e : Engine) (world : σ) :
    Call → Except Fault (Option StepResult) × Engine × σ
  | .construct construction =>
    match e.construct construction with
    | .ok e => (.ok none, e, world)
    | .error fault => (.error fault, e, world)
  | .execute =>
    match e.execute run world with
    | (.ok result, e, world) => (.ok (some result), e, world)
    | (.error fault, e, world) => (.error fault, e, world)
  | .advance =>
    match e.advance run world with
    | (.ok _, e, world) => (.ok none, e, world)
    | (.error fault, e, world) => (.error fault, e, world)
  | .saveStep name =>
    match e.saveStep run name world with
    | (.ok _, e, world) => (.ok none, e, world)
    | (.error fault, e, world) => (.error fault, e, world)
  | .idle => (.ok none, e, world)

/-- The scenario and the world after calls, whatever their answers. -/
def callAll (run : Runner σ) (e : Engine) (world : σ) : List Call → Engine × σ
  | [] => (e, world)
  | c :: rest =>
    let (_, e, world) := e.call run world c
    callAll run e world rest

end Engine

end Rehearsal
