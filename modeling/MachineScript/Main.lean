import MachineScript.CommandLine.Outcome

/-!
Contract: the program on the command line.

Owns: reading files, writing to the two outputs, and real time: a run without
a virtual clock sleeps for its period after every tick.
-/

namespace MachineScript.CommandLine

def readSource (path : String) : IO (Except FileError String) := do
  try
    let bytes ← IO.FS.readBinFile path
    return decodeFile bytes
  catch error =>
    return .error <| match error with
      | .noFileOrDirectory _ _ _ => .notFound
      | .noSuchThing _ _ _ => .notFound
      | .permissionDenied _ _ _ => .denied
      | .inappropriateType _ _ _ => .isDirectory
      | other => .other (toString other)

def emit (outcome : Outcome) : IO UInt32 := do
  IO.eprint outcome.stderr
  IO.print outcome.stdout
  return outcome.code.toUInt32

def flushOutput (session : Session) : IO Session := do
  IO.print session.engine.output
  (← IO.getStdout).flush
  return { session with engine := session.engine.clearOutput }

def sleepFor (span : Duration) : IO Unit := do
  if span.nanos ≠ 0 then
    IO.sleep (min span.toMillis (4294967295)).toUInt32

/-- The ticks of a run in real time, output by output. -/
def runInTime (options : RunOptions) (epoch : Nat) (session : Session) : Nat → IO Session
  | 0 => return session
  | ticksLeft + 1 => do
      if session.engine.isHalted then return session
      let time ←
        if options.virtualTime then pure (virtualTimes options session.ticks)
        else do pure (Duration.ofNanos ((← IO.monoNanosNow) - epoch))
      let session ← flushOutput (session.tick time)
      if !options.virtualTime then sleepFor options.period
      runInTime options epoch session ticksLeft

/-- Carry out `run`, writing as the program goes. -/
def runCommand (path : String) (options : RunOptions) : IO UInt32 := do
  match compileFile path (← readSource path) with
  | .error outcome => emit outcome
  | .ok compilation =>
      IO.eprint (linesText (warningLines compilation))
      let epoch ← IO.monoNanosNow
      let session ← runInTime options epoch (Session.start compilation.program options)
        options.maxTicks
      IO.eprint (linesText (closingLines session.summary))
      return (runCode session.summary).toUInt32

end MachineScript.CommandLine

open MachineScript.CommandLine in
def main (arguments : List String) : IO UInt32 := do
  match Command.ofArguments arguments with
  | .finished outcome => emit outcome
  | .check path => return ← emit (checkOutcome path (← readSource path))
  | .dump path => return ← emit (dumpOutcome path (← readSource path))
  | .run path options => runCommand path options
