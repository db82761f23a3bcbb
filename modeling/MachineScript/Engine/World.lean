import MachineScript.Library.Registry
import MachineScript.Printer
import MachineScript.SharedCells

/-!
Contract: what a run of instructions can see and change.

Owns:
- the setup, which never changes: program, libraries and limits;
- the world, which all instances share: globals, shared cells, both queues,
  the output, the time of the tick and its counters;
- an activation, which is the world with the one instance that runs, and the
  computations on it. What a run has changed stays changed when it fails.
-/

namespace MachineScript

/-- How deep function calls may nest, and how many launches a tick services. -/
structure EngineConfig where
  maxCallDepth : Nat := 256
  maxLaunches : Option Nat := none
deriving DecidableEq, Repr

/-- What stays the same for the whole life of an engine. -/
structure Setup where
  program : Program
  registry : Registry
  config : EngineConfig

def Setup.requires (setup : Setup) (module : String) : Bool :=
  setup.program.required.contains module

/-- A launch that waits for the next tick. -/
structure PendingLaunch where
  machine : ExemplarId
  parent : InstanceId
deriving DecidableEq, Repr

/-- A transition that waits for the next tick; its target is looked up then. -/
structure PendingTransition where
  instanceId : InstanceId
  target : String
deriving DecidableEq, Repr

/-- What all instances share. -/
structure World where
  globals : Bindings String Value := []
  shared : SharedCells := []
  launches : List PendingLaunch := []
  transitions : List PendingTransition := []
  printer : Printer := Printer.empty
  now : Duration := Duration.zero
  executed : Nat := 0
  fired : Nat := 0
deriving DecidableEq

/-- The world and the instance that runs in it. -/
structure Activation where
  world : World
  inst : Instance
deriving DecidableEq

/-- A computation of the running instance. -/
abbrev Run := EStateM RuntimeError Activation

namespace Run

def modifyInstance (change : Instance → Instance) : Run Unit :=
  modify fun activation => { activation with inst := change activation.inst }

def modifyWorld (change : World → World) : Run Unit :=
  modify fun activation => { activation with world := change activation.world }

def countInstruction : Run Unit :=
  modifyWorld fun world => { world with executed := world.executed + 1 }

def countCallback : Run Unit :=
  modifyWorld fun world => { world with fired := world.fired + 1 }

def printLines (lines : List String) : Run Unit :=
  modifyWorld fun world => { world with printer := world.printer.printLines lines }

end Run

end MachineScript
