import MachineScript.Duration

/-!
Contract: a clock that moves only when it is told to, and never backwards.
-/

namespace MachineScript

/-- Time since the clock's start. -/
structure ManualClock where
  now : Duration := Duration.zero
deriving DecidableEq, Repr

namespace ManualClock

/-- Move on by a span, stopping at the greatest span. -/
def advance (clock : ManualClock) (span : Duration) : ManualClock :=
  ⟨clock.now.add span⟩

/-- Move on by seconds; amounts that are not positive are ignored. -/
def advanceSeconds (clock : ManualClock) (seconds : Float) : ManualClock :=
  match Duration.ofSeconds? seconds with
  | some span => clock.advance span
  | none => clock

/-- Jump to a time; earlier times are ignored. -/
def set (clock : ManualClock) (time : Duration) : ManualClock :=
  if clock.now.nanos < time.nanos then ⟨time⟩ else clock

end ManualClock

end MachineScript
