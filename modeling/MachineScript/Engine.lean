import MachineScript.Engine.Lifecycle
import MachineScript.Interner

/-!
Contract: the engine that runs a program tick by tick.

Owns:
- the table of instances, in the order of their numbers, and the way one of
  them is taken out to run and put back settled or halted;
- the tick: it services the launches and transitions queued before it, first
  come first served, polls the waiting instances in order, and removes those
  that have retired. What is queued during a tick waits for the next one;
- what the host can do between ticks, and what it can see.

Does not own: the clock's readings; the host moves the clock. Nor the width of
its counters: the program counts ticks and created instances, and gives out
instance numbers, in 64 bits. Counters here are without bound, and the two are
alike for fewer than 2^64 ticks and fewer than 2^64 instances.
-/

namespace MachineScript

/-- A program in operation. -/
structure Engine where
  setup : Setup
  world : World
  instances : Bindings InstanceId Instance
  clock : ManualClock := {}
  nextId : InstanceId := 1
  tick : Nat := 0
  created : Nat := 0
  started : Bool := false

/-- What happened in one tick. -/
structure TickReport where
  tick : Nat
  launched : Nat
  transitioned : Nat
  callbacks : Nat
  retired : Nat
  executed : Nat
  faults : List InstanceFault
deriving DecidableEq, Repr

/-- What happened in a run of several ticks. -/
structure RunSummary where
  ticks : Nat
  halted : Bool
  faults : List InstanceFault
deriving DecidableEq, Repr

namespace Engine

/-- An engine that has not started: only the root instance exists. -/
def build (program : Program) (registry : Registry) (config : EngineConfig) (printer : Printer) :
    Engine :=
  { setup := { program := program, registry := registry, config := config }
    world := { printer := printer }
    instances := [(rootInstance, Instance.create rootInstance Program.root none)] }

/-! ## Runs of one instance -/

/-- An instance with the world around it put back into the engine. -/
def put (engine : Engine) (activation : Activation) : Engine :=
  { engine with
    world := activation.world
    instances := engine.instances.insert activation.inst.id activation.inst }

def exemplarName (engine : Engine) (id : ExemplarId) : String :=
  (engine.setup.program.exemplar id).name

/-- What is left of an activation that failed: the instance is halted and waits for nothing. -/
def haltActivation (activation : Activation) : Activation :=
  let id := activation.inst.id
  { world :=
      { activation.world with
        transitions := activation.world.transitions.filter fun pending => pending.instanceId ≠ id }
    inst := activation.inst.settle.halt }

/-- Run a computation of an instance. Afterwards the instance is settled, or halted by a fault. -/
def activate (engine : Engine) (inst : Instance) (run : Run Unit) :
    Option InstanceFault × Engine :=
  match run ⟨engine.world, { inst with status := .ready }⟩ with
  | .ok _ left => (none, engine.put { left with inst := left.inst.settle })
  | .error error left =>
      (some ⟨inst.id, engine.exemplarName inst.machine, error⟩, engine.put (haltActivation left))

/-- Run the forms at the top of the program, unless that has been done. -/
def start (engine : Engine) : Option InstanceFault × Engine :=
  if engine.started then (none, engine)
  else
    let engine :=
      { engine with
        started := true
        world := { engine.world with now := engine.clock.now } }
    match engine.instances.find? rootInstance with
    | some root => engine.activate root do
        let _ ← engine.setup.runExemplar Program.root
    | none => (none, engine)

/-! ## One tick -/

/-- How far a tick has come. -/
structure Progress where
  engine : Engine
  launched : Nat := 0
  transitioned : Nat := 0
  faults : List InstanceFault := []

namespace Progress

/-- The engine after one more run, with its fault if it had one. -/
def record (progress : Progress) (outcome : Option InstanceFault × Engine) : Progress :=
  { progress with
    engine := outcome.2
    faults := progress.faults ++ outcome.1.toList }

/-- Create the instance of a queued launch and run its first state. -/
def launch (progress : Progress) (pending : PendingLaunch) : Progress :=
  let engine := progress.engine
  let inst := Instance.create engine.nextId pending.machine (some pending.parent)
  let engine := { engine with nextId := engine.nextId + 1, created := engine.created + 1 }
  { progress with launched := progress.launched + 1 }.record
    (engine.activate inst engine.setup.initializeInstance)

/-- Follow a queued transition, unless its instance has gone or is about to go. -/
def transition (progress : Progress) (pending : PendingTransition) : Progress :=
  let engine := progress.engine
  match engine.instances.find? pending.instanceId with
  | none => progress
  | some inst =>
      if inst.status = .retiring then progress
      else
        { progress with transitioned := progress.transitioned + 1 }.record
          (engine.activate inst (engine.setup.transition pending.target))

/-- An instance that is polled: it waits, and not for a transition only. -/
def isPolled (inst : Instance) : Bool :=
  inst.status = .suspended && !inst.transitionQueued && inst.hasPendingCallbacks

def poll (progress : Progress) (id : InstanceId) : Progress :=
  let engine := progress.engine
  match engine.instances.find? id with
  | none => progress
  | some inst =>
      if isPolled inst then
        progress.record (engine.activate inst engine.setup.pollHandlers)
      else progress

end Progress

/-- Remove an instance and let go of the shared variables that it holds. -/
def retire (engine : Engine) (id : InstanceId) : Engine :=
  match engine.instances.find? id with
  | none => engine
  | some inst =>
      { engine with
        instances := engine.instances.erase id
        world :=
          { engine.world with shared := engine.world.shared.releaseAll inst.sharedRefs } }

/-- The instances that have finished. -/
def retiring (engine : Engine) : List InstanceId :=
  (engine.instances.filter fun entry => entry.2.status = .retiring).map Prod.fst

def launchCount (engine : Engine) : Nat :=
  let queued := engine.world.launches.length
  match engine.setup.config.maxLaunches with
  | some cap => min cap queued
  | none => queued

/-- The engine at the start of a tick: a new reading of the clock and fresh counters. -/
def beginTick (engine : Engine) : Engine :=
  { engine with
    tick := engine.tick + 1
    world := { engine.world with now := engine.clock.now, executed := 0, fired := 0 } }

/-- The engine without the launches and transitions that the tick is about to service. -/
def takeQueues (engine : Engine) : Engine :=
  { engine with
    world :=
      { engine.world with
        launches := engine.world.launches.drop engine.launchCount
        transitions := [] } }

/-- One tick. An engine that has not been started is started first. -/
def runTick (engine : Engine) : TickReport × Engine :=
  let (startFault, started) := engine.start
  let ready := started.beginTick
  let launches := ready.world.launches.take ready.launchCount
  let transitions := ready.world.transitions
  let progress : Progress := { engine := ready.takeQueues, faults := startFault.toList }
  let progress := launches.foldl Progress.launch progress
  let progress := transitions.foldl Progress.transition progress
  let progress := (progress.engine.instances.map Prod.fst).foldl Progress.poll progress
  let finished := progress.engine.retiring
  let engine := finished.foldl retire progress.engine
  ({ tick := engine.tick
     launched := progress.launched
     transitioned := progress.transitioned
     callbacks := engine.world.fired
     retired := finished.length
     executed := engine.world.executed
     faults := progress.faults }, engine)

/-! ## What the host can do and see -/

/-- The instances of machines that have not finished, oldest first. -/
def live (engine : Engine) : List Instance :=
  (engine.instances.map Prod.snd).filter fun inst => !inst.isRoot && inst.status ≠ .retiring

/-- The program has started, no machine is live, and nothing is queued. -/
def isHalted (engine : Engine) : Bool :=
  engine.started && engine.world.launches.isEmpty && engine.world.transitions.isEmpty
    && engine.live.isEmpty

/-- Run ticks until the engine halts, at most so many. -/
def runUntilHalted (engine : Engine) : (maxTicks : Nat) → RunSummary × Engine
  | 0 => ({ ticks := 0, halted := engine.isHalted, faults := [] }, engine)
  | maxTicks + 1 =>
      if engine.isHalted then ({ ticks := 0, halted := true, faults := [] }, engine)
      else
        let (report, next) := engine.runTick
        let (summary, last) := next.runUntilHalted maxTicks
        ({ summary with
           ticks := summary.ticks + 1
           faults := report.faults ++ summary.faults }, last)

def launch (engine : Engine) (machine : String) : Except NameError Engine :=
  match engine.setup.program.machine? machine with
  | some exemplar =>
      .ok { engine with
        world :=
          { engine.world with
            launches := engine.world.launches ++ [⟨exemplar, rootInstance⟩] } }
  | none => .error ⟨.machine, machine⟩

/-- Remove an instance now, with its queued transition. The root and instances that do not exist
cannot be removed. -/
def terminate (engine : Engine) (id : InstanceId) : Bool × Engine :=
  if id = rootInstance || !engine.instances.has id then (false, engine)
  else
    let world :=
      { engine.world with
        transitions := engine.world.transitions.filter fun pending => pending.instanceId ≠ id }
    (true, { engine with world := world }.retire id)

def knowsName (engine : Engine) (name : String) : Bool :=
  (engine.setup.program.interner.get? name).isSome

def assignVariable (engine : Engine) (id : InstanceId) (name : String) (value : Value) :
    Except NameError Engine :=
  let undefined : NameError := ⟨.variable, name⟩
  if !engine.knowsName name then .error undefined
  else match engine.instances.find? id with
    | none => .error undefined
    | some inst => do
        let slot ← engine.setup.resolve engine.world inst name
        match (Activation.mk engine.world inst).writeSlot? name slot value with
        | some written => .ok (engine.put written)
        | none => .error undefined

/-- A variable as the code of an instance sees it. -/
def readVariable (engine : Engine) (id : InstanceId) (name : String) : Option Value :=
  if !engine.knowsName name then none
  else match engine.instances.find? id with
    | none => none
    | some inst => (engine.setup.readVariable engine.world inst name).toOption

def readGlobal (engine : Engine) (name : String) : Option Value :=
  if engine.knowsName name then engine.world.globals.find? name else none

/-- The key of a shared variable of a machine at the top of the program. -/
def sharedKey? (engine : Engine) (machine name : String) : Option SharedKey :=
  if engine.knowsName name then
    (engine.setup.program.machine? machine).map fun exemplar => (exemplar, name)
  else none

/-- The value of a shared variable, if some instance holds it. -/
def sharedValue (engine : Engine) (machine name : String) : Option Value :=
  (engine.sharedKey? machine name).bind engine.world.shared.value?

def sharedHolders (engine : Engine) (machine name : String) : Nat :=
  match engine.sharedKey? machine name with
  | some key => engine.world.shared.holders key
  | none => 0

def countOf (engine : Engine) (machine : String) : Nat :=
  (engine.live.filter fun inst => engine.exemplarName inst.machine == machine).length

def status (engine : Engine) (id : InstanceId) : Status :=
  match engine.instances.find? id with
  | some inst => inst.status
  | none => .gone

def machineOf (engine : Engine) (id : InstanceId) : Option String :=
  (engine.instances.find? id).map fun inst => engine.exemplarName inst.machine

def currentState (engine : Engine) (id : InstanceId) : Option String :=
  ((engine.instances.find? id).bind Instance.currentState).map engine.exemplarName

/-- The active states of an instance, outermost first. -/
def statePath (engine : Engine) (id : InstanceId) : List String :=
  match engine.instances.find? id with
  | some inst => inst.activeStates.map engine.exemplarName
  | none => []

def output (engine : Engine) : String :=
  engine.world.printer.output

def clearOutput (engine : Engine) : Engine :=
  { engine with world := { engine.world with printer := engine.world.printer.clear } }

def moveClock (engine : Engine) (move : ManualClock → ManualClock) : Engine :=
  { engine with clock := move engine.clock }

end Engine

end MachineScript
