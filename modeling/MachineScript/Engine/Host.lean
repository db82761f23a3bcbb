import MachineScript.Engine

/-!
Contract: what a host does with an engine, as data.

Owns: the calls that change an engine or its clock, the answer to each, and
the engines that some sequence of calls leads to.

Does not own: what a host only looks at; that is in the engine's own module.
-/

namespace MachineScript

/-- A call of the host. -/
inductive HostCall where
  | start
  | tick
  | run (maxTicks : Nat)
  | launch (machine : String)
  | terminate (id : InstanceId)
  | assign (id : InstanceId) (name : String) (value : Value)
  | clearOutput
  | advance (span : Duration)
  | advanceSeconds (seconds : Float)
  | setClock (time : Duration)

/-- What the host is answered. -/
inductive HostAnswer where
  | outcome (fault : Option InstanceFault)
  | report (report : TickReport)
  | summary (summary : RunSummary)
  | removed (done : Bool)
  | refused (error : NameError)
  | done
  | time (now : Duration)
deriving DecidableEq

namespace Engine

/-- An engine that may have refused a call; one that did is unchanged. -/
def orUnchanged (engine : Engine) : Except NameError Engine → HostAnswer × Engine
  | .ok next => (.done, next)
  | .error error => (.refused error, engine)

/-- The engine with its clock moved, and the time that the clock shows then. -/
def withClockMoved (engine : Engine) (move : ManualClock → ManualClock) : HostAnswer × Engine :=
  let next := engine.moveClock move
  (.time next.clock.now, next)

def perform (engine : Engine) : HostCall → HostAnswer × Engine
  | .start =>
      let (fault, next) := engine.start
      (.outcome fault, next)
  | .tick =>
      let (report, next) := engine.runTick
      (.report report, next)
  | .run maxTicks =>
      let (summary, next) := engine.runUntilHalted maxTicks
      (.summary summary, next)
  | .launch machine => engine.orUnchanged (engine.launch machine)
  | .terminate id =>
      let (done, next) := engine.terminate id
      (.removed done, next)
  | .assign id name value => engine.orUnchanged (engine.assignVariable id name value)
  | .clearOutput => (.done, engine.clearOutput)
  | .advance span => engine.withClockMoved (·.advance span)
  | .advanceSeconds seconds => engine.withClockMoved (·.advanceSeconds seconds)
  | .setClock time => engine.withClockMoved (·.set time)

/-- The engine after calls of the host, one after another. -/
def performAll (engine : Engine) (calls : List HostCall) : Engine :=
  calls.foldl (fun current call => (current.perform call).2) engine

/-- Some sequence of host calls leads from one engine to another. -/
def Reaches (before after : Engine) : Prop :=
  ∃ calls : List HostCall, before.performAll calls = after

theorem Reaches.refl (engine : Engine) : engine.Reaches engine :=
  ⟨[], rfl⟩

theorem Reaches.perform {before after : Engine} (reached : before.Reaches after)
    (call : HostCall) : before.Reaches (after.perform call).2 := by
  obtain ⟨calls, rfl⟩ := reached
  exact ⟨calls ++ [call], by simp [performAll]⟩

end Engine

end MachineScript
