import MachineScript.Engine.Host

/-!
Contract: what a host sees of its calls, one after another.

Owns: the answers to a sequence of calls and the ticks that it takes, also
those inside a run of several ticks.

Does not own: what the ticks do.
-/

namespace MachineScript

/-- The faults that a host is told of. -/
def HostAnswer.faults : HostAnswer → List InstanceFault
  | .outcome ofStart => ofStart.toList
  | .report ofTick => ofTick.faults
  | .summary ofRun => ofRun.faults
  | _ => []

namespace Engine

/-- The engines that tick, one after another, in a run of at most so many ticks. -/
def ticksUntilHalted (engine : Engine) : (maxTicks : Nat) → List Engine
  | 0 => []
  | maxTicks + 1 =>
      if engine.isHalted then []
      else engine :: engine.runTick.2.ticksUntilHalted maxTicks

/-- The engines that tick in a call of the host. -/
def ticksOf (engine : Engine) : HostCall → List Engine
  | .tick => [engine]
  | .run maxTicks => engine.ticksUntilHalted maxTicks
  | _ => []

/-- The engines that tick in a sequence of calls. -/
def ticksIn (engine : Engine) : List HostCall → List Engine
  | [] => []
  | call :: rest => engine.ticksOf call ++ (engine.perform call).2.ticksIn rest

/-- The answers to a sequence of calls. -/
def answers (engine : Engine) : List HostCall → List HostAnswer
  | [] => []
  | call :: rest => (engine.perform call).1 :: (engine.perform call).2.answers rest

end Engine

end MachineScript
