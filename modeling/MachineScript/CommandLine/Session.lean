import MachineScript.CommandLine.Arguments
import MachineScript.Compilation
import MachineScript.Engine
import MachineScript.Library.Standard

/-!
Contract: a program run from its start until it halts or its ticks are used up.

Owns: the engine of a run, one tick of it at a given time, the whole run given
the times of its ticks, and the times of a clock that moves on by one period a
tick.

Does not own: real time; the outer layer reads it.
-/

namespace MachineScript.CommandLine

/-- A run in progress: the engine with the ticks and faults so far. -/
structure Session where
  engine : Engine
  ticks : Nat := 0
  faults : List InstanceFault := []

namespace Session

/-- A run that has not started, with the standard libraries and its output collected. -/
def start (program : Program) (options : RunOptions) : Session :=
  let config : EngineConfig := match options.maxCallDepth with
    | some depth => { maxCallDepth := depth }
    | none => {}
  { engine := Engine.build program Registry.standard config Printer.empty }

/-- One more tick, at a time. -/
def tick (session : Session) (time : Duration) : Session :=
  let (report, engine) := (session.engine.moveClock (·.set time)).runTick
  { engine := engine
    ticks := session.ticks + 1
    faults := session.faults ++ report.faults }

/-- At most so many more ticks, until the engine halts; `times` gives the time of each. -/
def run (times : Nat → Duration) (session : Session) : (ticksLeft : Nat) → Session
  | 0 => session
  | ticksLeft + 1 =>
      if session.engine.isHalted then session
      else (session.tick (times session.ticks)).run times ticksLeft

def summary (session : Session) : RunSummary :=
  ⟨session.ticks, session.engine.isHalted, session.faults⟩

end Session

/-- The time of a tick on a clock that starts at zero and moves on by one period a tick. -/
def virtualTimes (options : RunOptions) (index : Nat) : Duration :=
  Duration.ofNanos (index * options.period.nanos)

def runProgram (options : RunOptions) (times : Nat → Duration) (program : Program) : Session :=
  (Session.start program options).run times options.maxTicks

def describeFaults (faults : List InstanceFault) : List String :=
  faults.map fun fault => "error: " ++ fault.message

end MachineScript.CommandLine
