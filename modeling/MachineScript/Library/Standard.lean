import MachineScript.Library.Arithmetic

/-!
Contract: the registry of all standard libraries, `io`, `math` and `time`.

Owns:
- the library `io`, which prints lines;
- the library `time`: the condition that waits for a number of seconds, and whole
  milliseconds.

Does not own: the functions of `math`.
-/

namespace MachineScript

namespace Library

/-! ## Output -/

/-- Print the arguments on one line, a space between them. -/
def printArguments : NativeFunction := fun arguments =>
  .ok ⟨.nil, [" ".intercalate (arguments.map Value.display)]⟩

/-- Print an empty line; there are no arguments. -/
def printBlank : NativeFunction := fun arguments => do
  expectCount "io.newline" arguments 0
  .ok ⟨.nil, [""]⟩

/-- Add the library `io` to a registry. -/
def withOutput (registry : Registry) : Registry :=
  (registry.withFunction "io.print" printArguments).withFunction "io.newline" printBlank

/-! ## Time -/

/-- At least as many seconds have passed as the argument says. -/
def timeAfter : NativeCondition := fun argument elapsed => do
  let seconds ← expectNumber "time.after" argument
  .ok (seconds ≤ elapsed.toSeconds)

/-- The integer nearest to a float, a half going away from zero, within the range of 64 bits;
zero for what is no number. -/
def nearestInt64 (x : Float) : Int64 :=
  match Number.floatShape x with
  | .notANumber => 0
  | .infinite negative => if negative then Int64.minValue else Int64.maxValue
  | .finite negative magnitude =>
      let whole := magnitude.nearestMultiple .up 1
      let signed : Int := if negative then -(whole : Int) else whole
      (Number.int64? signed).getD (if negative then Int64.minValue else Int64.maxValue)

def millis : NativeFunction := fun arguments => do
  expectCount "time.millis" arguments 1
  let seconds ← expectNumber "time.millis" (arguments.headD .nil)
  .ok ⟨.int (nearestInt64 (seconds * 1000.0)), []⟩

/-- Add the library `time` to a registry. -/
def withTiming (registry : Registry) : Registry :=
  (registry.withCondition "time.after" timeAfter).withFunction "time.millis" millis

end Library

def Registry.standard : Registry :=
  Library.withTiming (Library.withArithmetic (Library.withOutput Registry.empty))

end MachineScript
