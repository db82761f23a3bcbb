import MachineScript.Proofs.Coherence

/-!
Contract: a tick as a sequence of turns.

Owns: the phases of a tick, the turn in which each queued launch, each queued
transition and each waiting instance runs, and that the phases are made of
these turns.

Does not own: what holds before and after a turn.
-/

namespace MachineScript

/-- What an instance runs for. -/
inductive Errand where
  | launch
  | transition (target : String)
  | poll
deriving DecidableEq

def Errand.run (setup : Setup) : Errand → Run Unit
  | .launch => setup.initializeInstance
  | .transition target => setup.transition target
  | .poll => setup.pollHandlers

/-- An errand up to the state that it enters, if it enters one. -/
def Errand.destination (setup : Setup) : Errand → Run (Option ExemplarId)
  | .launch => do
      let activation ← get
      let machine := activation.inst.machine
      let _ ← setup.runExemplar machine
      match setup.program.nested? machine "main" .state with
      | some main => pure (some main)
      | none => throw (.undefined .state "main")
  | .transition target => do
      Run.modifyInstance fun inst => { inst with transitionQueued := false, parked := false }
      let activation ← get
      match setup.findState activation.inst target with
      | none => throw (.undefined .state target)
      | some state => do
          let holder := (setup.program.exemplar state).parent
          Run.modifyInstance fun inst =>
            { inst with
              contexts := inst.contexts.dropWhile fun context => some context.exemplar ≠ holder }
          pure (some state)
  | .poll => do
      setup.pollHandlers
      pure none

/-- An errand enters its destination and ends with that. -/
theorem Errand.run_eq (setup : Setup) (errand : Errand) :
    errand.run setup = errand.destination setup >>= fun destination =>
      match destination with
      | some state => setup.enterState state
      | none => pure () := by
  cases errand with
  | launch =>
      simp only [Errand.run, destination, Setup.initializeInstance, bind_assoc]
      congr 1
      funext activation
      congr 1
      funext _
      cases setup.program.nested? activation.inst.machine "main" .state <;> rfl
  | transition target =>
      simp only [Errand.run, destination, Setup.transition, bind_assoc]
      congr 1
      funext _
      congr 1
      funext activation
      cases setup.findState activation.inst target <;> rfl
  | poll =>
      simp only [Errand.run, destination, bind_assoc, pure_bind, bind_pure_unit]

/-- A launch enters `main`, a transition enters its target, and a poll enters nothing. -/
def Errand.Leads (errand : Errand) (setup : Setup) (inst : Instance)
    (destination : Option ExemplarId) : Prop :=
  match errand with
  | .launch => setup.program.nested? inst.machine "main" .state = destination
  | .transition target => setup.findState inst target = destination
  | .poll => destination = none

theorem Errand.destination_ends (setup : Setup) (errand : Errand) (start : Activation) :
    (errand.destination setup).Ends start
      (fun destination _ => errand.Leads setup start.inst destination) (fun _ => True) := by
  cases errand with
  | launch =>
      simp only [destination, Run.ends_bind, Run.ends_get]
      apply Run.ends_of_forall _ _ fun _ => trivial
      intro _ _
      split
      · next main found => exact found
      · trivial
  | transition target =>
      simp only [destination, Run.ends_bind, Run.ends_get, Run.ends_modifyInstance]
      split
      · trivial
      · next state found => exact found
  | poll =>
      simp only [destination, Run.ends_bind]
      exact Run.ends_of_forall _ (fun _ _ => rfl) fun _ => trivial

namespace Engine

/-- A fault names the instance that ran. -/
theorem instanceId_of_activate {engine : Engine} {inst : Instance} {run : Run Unit}
    {fault : InstanceFault} (failed : (engine.activate inst run).1 = some fault) :
    fault.instanceId = inst.id := by
  unfold activate at failed
  split at failed
  · cases failed
  · cases failed
    rfl

theorem nextId_activate (engine : Engine) (inst : Instance) (run : Run Unit) :
    (engine.activate inst run).2.nextId = engine.nextId := by
  unfold activate
  split <;> rfl

/-- One run of an instance: the engine before it, and the instance as it is taken up. -/
structure Turn where
  engine : Engine
  inst : Instance
  errand : Errand

namespace Turn

/-- How the run of a turn ends, and what it leaves of the world and the instance. -/
def run (turn : Turn) : EStateM.Result RuntimeError Activation Unit :=
  turn.errand.run turn.engine.setup (turn.engine.starting turn.inst)

/-- The fault of a turn, if it has one, and the engine after it. -/
def outcome (turn : Turn) : Option InstanceFault × Engine :=
  turn.engine.activate turn.inst (turn.errand.run turn.engine.setup)

theorem outcome_of_ok {turn : Turn} {left : Activation} (ended : turn.run = .ok () left) :
    turn.outcome = (none, turn.engine.put { left with inst := left.inst.settle }) := by
  unfold Turn.run starting at ended
  unfold outcome activate
  rw [ended]

theorem outcome_of_error {turn : Turn} {cause : RuntimeError} {left : Activation}
    (ended : turn.run = .error cause left) :
    turn.outcome = (some ⟨turn.inst.id, turn.engine.exemplarName turn.inst.machine, cause⟩,
      turn.engine.put (haltActivation left)) := by
  unfold Turn.run starting at ended
  unfold outcome activate
  rw [ended]

theorem failed_of_error {turn : Turn} {cause : RuntimeError} {left : Activation}
    (ended : turn.run = .error cause left) : turn.outcome.1.isSome = true := by
  rw [outcome_of_error ended]
  rfl

/-- The state that a turn enters, if it enters one. -/
def entered (turn : Turn) : Option ExemplarId :=
  match turn.errand.destination turn.engine.setup (turn.engine.starting turn.inst) with
  | .ok destination _ => destination
  | .error _ _ => none

theorem leads_of_entered {turn : Turn} {state : ExemplarId} (entered : turn.entered = some state) :
    turn.errand.Leads turn.engine.setup turn.inst (some state) := by
  have ends := turn.errand.destination_ends turn.engine.setup (turn.engine.starting turn.inst)
  unfold Turn.entered at entered
  split at entered
  · next destination left ended =>
      rw [← entered]
      exact ends.of_ok ended
  · cases entered

/-- The transitions that are in the queue after a turn, behind those that were before it. -/
def queued (turn : Turn) : List PendingTransition :=
  turn.outcome.2.world.transitions.drop turn.engine.world.transitions.length

end Turn

namespace Progress

/-- The turn of a launch: the instance is new. -/
def launchTurn (progress : Progress) (pending : PendingLaunch) : Turn where
  engine :=
    { progress.engine with
      nextId := progress.engine.nextId + 1
      created := progress.engine.created + 1 }
  inst := Instance.create progress.engine.nextId pending.machine (some pending.parent)
  errand := .launch

/-- The turn of a transition, if its instance is there and has not finished. -/
def transitionTurn? (progress : Progress) (pending : PendingTransition) : Option Turn :=
  match progress.engine.instances.find? pending.instanceId with
  | none => none
  | some inst =>
      if inst.status = .retiring then none
      else some ⟨progress.engine, inst, .transition pending.target⟩

/-- The turn of an instance that is polled. -/
def pollTurn? (progress : Progress) (id : InstanceId) : Option Turn :=
  match progress.engine.instances.find? id with
  | none => none
  | some inst => if isPolled inst then some ⟨progress.engine, inst, .poll⟩ else none

def afterTurn (progress : Progress) : Option Turn → Progress
  | none => progress
  | some turn => progress.record turn.outcome

theorem transition_eq (progress : Progress) (pending : PendingTransition) :
    progress.transition pending
      = { progress with
          transitioned := progress.transitioned
            + (progress.transitionTurn? pending).toList.length }.afterTurn
          (progress.transitionTurn? pending) := by
  unfold Progress.transition transitionTurn?
  cases found : progress.engine.instances.find? pending.instanceId with
  | none =>
      simp only [found]
      rfl
  | some inst =>
      by_cases retiring : inst.status = .retiring
      · simp only [found, retiring, if_true]
        rfl
      · simp only [found, retiring, if_false]
        rfl

theorem poll_eq (progress : Progress) (id : InstanceId) :
    progress.poll id = progress.afterTurn (progress.pollTurn? id) := by
  unfold Progress.poll pollTurn?
  cases found : progress.engine.instances.find? id with
  | none =>
      simp only [found]
      rfl
  | some inst =>
      by_cases polled : isPolled inst = true
      · simp only [found, polled, if_true]
        rfl
      · simp only [found, polled, Bool.false_eq_true, if_false]
        rfl

end Progress

/-! ## The phases of a tick -/

def ready (engine : Engine) : Engine :=
  engine.start.2.beginTick

def dueLaunches (engine : Engine) : List PendingLaunch :=
  engine.ready.world.launches.take engine.ready.launchCount

def dueTransitions (engine : Engine) : List PendingTransition :=
  engine.ready.world.transitions

/-- A tick that has taken what is due off the queues. -/
def opened (engine : Engine) : Progress :=
  { engine := engine.ready.takeQueues, faults := engine.start.1.toList }

def launched (engine : Engine) : Progress :=
  engine.dueLaunches.foldl Progress.launch engine.opened

def transitioned (engine : Engine) : Progress :=
  engine.dueTransitions.foldl Progress.transition engine.launched

def polled (engine : Engine) : Progress :=
  (engine.transitioned.engine.instances.map Prod.fst).foldl Progress.poll engine.transitioned

/-- The last phase of a tick removes the instances that have finished. -/
theorem runTick_engine (engine : Engine) :
    engine.runTick.2 = engine.polled.engine.retiring.foldl retire engine.polled.engine := rfl

theorem runTick_transitioned (engine : Engine) :
    engine.runTick.1.transitioned = engine.polled.transitioned := rfl

theorem runTick_retired (engine : Engine) :
    engine.runTick.1.retired = engine.polled.engine.retiring.length := rfl

/-! ## The turns of a tick -/

/-- The turns of a phase that handles items one after another. -/
def turnsOf {α : Type} (step : Progress → α → Progress) (turn? : Progress → α → Option Turn) :
    Progress → List α → List Turn
  | _, [] => []
  | progress, item :: rest =>
      (turn? progress item).toList ++ turnsOf step turn? (step progress item) rest

/-- A turn of a phase is taken at its item, after the items in front of it. -/
theorem mem_turnsOf {α : Type} {step : Progress → α → Progress}
    {turn? : Progress → α → Option Turn} {before : Progress} {items : List α} {turn : Turn}
    (member : turn ∈ turnsOf step turn? before items) :
    ∃ front item back, items = front ++ item :: back
      ∧ turn? (front.foldl step before) item = some turn := by
  induction items generalizing before with
  | nil => cases member
  | cons first rest inductionHypothesis =>
      rcases List.mem_append.mp member with here | later
      · exact ⟨[], first, rest, rfl, Option.mem_toList.mp here⟩
      · obtain ⟨front, item, back, rfl, taken⟩ := inductionHypothesis later
        exact ⟨first :: front, item, back, rfl, taken⟩

def launchTurns (engine : Engine) : List Turn :=
  turnsOf Progress.launch (fun progress pending => some (progress.launchTurn pending))
    engine.opened engine.dueLaunches

theorem errand_of_mem_launchTurns {engine : Engine} {turn : Turn}
    (member : turn ∈ engine.launchTurns) : turn.errand = .launch := by
  obtain ⟨front, pending, back, _, taken⟩ := mem_turnsOf member
  cases taken
  rfl

def transitionTurns (engine : Engine) : List Turn :=
  turnsOf Progress.transition Progress.transitionTurn? engine.launched engine.dueTransitions

/-- The turns of the instances that a tick polls. -/
def pollTurns (engine : Engine) : List Turn :=
  turnsOf Progress.poll Progress.pollTurn? engine.transitioned
    (engine.transitioned.engine.instances.map Prod.fst)

/-- The turns of a tick, in order. -/
def turns (engine : Engine) : List Turn :=
  engine.launchTurns ++ engine.transitionTurns ++ engine.pollTurns

end Engine

end MachineScript
