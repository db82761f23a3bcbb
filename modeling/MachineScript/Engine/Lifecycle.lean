import MachineScript.Engine.Execution

/-!
Contract: what an instance does in its life.

Owns: the launch, which runs the machine's own instructions and enters the
state `main`; entering a state with its handlers; following a transition; and
polling the handlers that wait.
-/

namespace MachineScript.Setup

/-- Let a handler wait in the innermost context. Its condition has to exist, and the module of
the condition has to be required. -/
def registerHandler (setup : Setup) (handler : ExemplarId) : Run Unit := do
  let exemplar := setup.program.exemplar handler
  let condition := exemplar.name
  match moduleOf condition with
  | some module =>
      if !setup.requires module then throw (.undefined .module module) else pure ()
  | none => pure ()
  match setup.registry.condition? condition with
  | none => throw (.undefined .condition condition)
  | some _ => do
      let argument ← match exemplar.argument with
        | some constant => setup.evalConstant constant
        | none => pure Value.nil
      let activation ← get
      let callback : Callback := ⟨handler, condition, argument, activation.world.now⟩
      Run.modifyInstance fun inst => inst.addCallback callback

/-- Let handlers wait, in order. -/
def registerHandlers (setup : Setup) : List ExemplarId → Run Unit
  | [] => pure ()
  | handler :: rest => do
      setup.registerHandler handler
      setup.registerHandlers rest

/-- Enter a state: open its context, let its handlers wait, then run it. -/
def enterState (setup : Setup) (state : ExemplarId) : Run Unit := do
  Run.modifyInstance fun inst => inst.pushContext (Context.state state)
  setup.registerHandlers (setup.program.exemplar state).handlers
  let _ ← setup.runExemplar state

/-- Launch: run the machine's own instructions, then enter its state `main`. -/
def initializeInstance (setup : Setup) : Run Unit := do
  let activation ← get
  let machine := activation.inst.machine
  let _ ← setup.runExemplar machine
  match setup.program.nested? machine "main" .state with
  | some main => setup.enterState main
  | none => throw (.undefined .state "main")

/-- Follow a transition: close the contexts inside the one that holds the target, or all of them
if the machine holds it, and enter the target. -/
def transition (setup : Setup) (target : String) : Run Unit := do
  Run.modifyInstance fun inst => { inst with transitionQueued := false, parked := false }
  let activation ← get
  match setup.findState activation.inst target with
  | none => throw (.undefined .state target)
  | some state => do
      let holder := (setup.program.exemplar state).parent
      Run.modifyInstance fun inst =>
        { inst with
          contexts := inst.contexts.dropWhile fun context => some context.exemplar ≠ holder }
      setup.enterState state

/-- Poll the waiting handlers of one context from `index` on, at most `unseen` of them. A handler
whose condition holds is taken away and run. The answer says whether polling goes on. -/
def pollContext (setup : Setup) (level : Nat) : (unseen : Nat) → (index : Nat) → Run Bool
  | 0, _ => pure true
  | unseen + 1, index => do
      let activation ← get
      match activation.inst.callback? level index with
      | none => pure true
      | some callback =>
          let elapsed := callback.waited activation.world.now
          match setup.registry.isSatisfied callback.condition callback.argument elapsed with
          | none => throw (.undefined .condition callback.condition)
          | some (.error error) => throw (.library error)
          | some (.ok false) => setup.pollContext level unseen (index + 1)
          | some (.ok true) => do
              Run.modifyInstance fun inst => inst.removeCallback level index
              Run.countCallback
              let (flow, _) ← setup.runExemplar callback.handler
              let after ← get
              if flow = .suspended && after.inst.transitionQueued then pure false
              else setup.pollContext level unseen index

/-- Poll the outermost of the innermost `levels` contexts, then the ones inside it, until a
handler queues a transition. -/
def pollContexts (setup : Setup) : (levels : Nat) → Run Unit
  | 0 => pure ()
  | level + 1 => do
      let activation ← get
      let waiting := match activation.inst.contexts[level]? with
        | some context => context.callbacks.length
        | none => 0
      let goesOn ← setup.pollContext level waiting 0
      if goesOn then setup.pollContexts level else pure ()

/-- Poll all waiting handlers, outermost context first. -/
def pollHandlers (setup : Setup) : Run Unit := do
  let activation ← get
  setup.pollContexts activation.inst.contexts.length

end MachineScript.Setup
