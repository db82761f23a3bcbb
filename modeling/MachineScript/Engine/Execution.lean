import MachineScript.Engine.Scope

/-!
Contract: the run of a list of instructions.

Owns: the evaluation of values, the effect of each instruction, calls of
script functions and of library functions, and where a list ends.

Evaluation follows the shape of a value, and each script call leaves one call
less for the calls inside it, so every run ends.
-/

namespace MachineScript

/-- How a list of instructions ended. -/
inductive Flow where
  | completed
  | suspended
deriving DecidableEq, Repr

/-- The effect of a call, given the name and the arguments. -/
abbrev Caller := String → List Value → Run Value

namespace Setup

/-- The value of a constant; an atom is a variable. -/
def evalConstant (setup : Setup) (constant : Constant) : Run Value :=
  match constant with
  | .atom name => do
      let activation ← get
      match setup.readVariable activation.world activation.inst name with
      | .ok value => pure value
      | .error error => throw (.name error)
  | literal => pure ((Value.ofLiteral? literal).getD .nil)

mutual

/-- The value of a source. An inline call counts as an instruction. -/
def evalSource (setup : Setup) (caller : Caller) : Source → Run Value
  | .constant constant => setup.evalConstant constant
  | .nested _ callee arguments => do
      Run.countInstruction
      let values ← evalSources setup caller arguments
      caller callee values

/-- The values of sources, from left to right. -/
def evalSources (setup : Setup) (caller : Caller) : List Source → Run (List Value)
  | [] => pure []
  | source :: rest => do
      let value ← evalSource setup caller source
      let values ← evalSources setup caller rest
      pure (value :: values)

end

def launch (setup : Setup) (name : String) : Run Unit := do
  let activation ← get
  match setup.findMachine activation.inst name with
  | some machine =>
      Run.modifyWorld fun world =>
        { world with launches := world.launches ++ [⟨machine, activation.inst.id⟩] }
  | none => throw (.undefined .machine name)

def queueTransition (target : String) : Run Unit := do
  let activation ← get
  Run.modifyInstance fun inst => { inst with transitionQueued := true }
  Run.modifyWorld fun world =>
    { world with transitions := world.transitions ++ [⟨activation.inst.id, target⟩] }

/-- Take hold of a shared variable; it gets its default if nothing holds it. -/
def holdShared (name : String) (default : Run Value) : Run Unit := do
  let activation ← get
  let key := (activation.inst.machine, name)
  match activation.world.shared.retain? key with
  | some cells => Run.modifyWorld fun world => { world with shared := cells }
  | none => do
      let value ← default
      Run.modifyWorld fun world => { world with shared := world.shared.create key value }
  Run.modifyInstance fun inst => { inst with sharedRefs := inst.sharedRefs ++ [key] }

/-- The effect and value of one instruction. -/
def execute (setup : Setup) (caller : Caller) : Instruction → Run Value
  | .launch machine => do
      setup.launch machine
      pure .nil
  | .goto state => do
      queueTransition state
      pure .nil
  | .set name source => do
      let value ← setup.evalSource caller source
      modify fun activation => activation.set setup name value
      pure value
  | .shared name source => do
      holdShared name (setup.evalSource caller source)
      pure .nil
  | .call callee arguments => do
      let values ← setup.evalSources caller arguments
      caller callee values

/-- Run instructions and give the last one's value. Where transfers suspend, the list ends right
behind one, and a launch there parks the instance in its state. -/
def runInstructions (setup : Setup) (caller : Caller) (suspends : Bool) (last : Value) :
    List Instruction → Run (Flow × Value)
  | [] => pure (.completed, last)
  | instruction :: rest => do
      Run.countInstruction
      let value ← setup.execute caller instruction
      if suspends && instruction.isTransfer then do
        match instruction with
        | .launch _ => Run.modifyInstance fun inst => { inst with parked := true }
        | _ => pure ()
        pure (.suspended, .nil)
      else
        setup.runInstructions caller suspends value rest

/-- Run the instructions of an exemplar. The runs of states and handlers end at a transfer. -/
def runExemplarWith (setup : Setup) (caller : Caller) (id : ExemplarId) : Run (Flow × Value) :=
  let exemplar := setup.program.exemplar id
  setup.runInstructions caller exemplar.construct.suspends .nil exemplar.instructions

/-- Call a library function; its module has to be required. -/
def callLibrary (setup : Setup) (name : String) (arguments : List Value) : Run Value :=
  match moduleOf name with
  | none => throw (.undefined .function name)
  | some module =>
      if !setup.requires module then throw (.undefined .module module)
      else match setup.registry.function? name with
        | none => throw (.undefined .function name)
        | some run =>
            match run arguments with
            | .ok answer => do
                Run.printLines answer.printed
                pure answer.value
            | .error error => throw (.library error)

/-- Run a body inside a context of its own, which is closed again however the body ends. -/
def inFrame (frame : Context) (body : Run (Flow × Value)) : Run Value := fun activation =>
  let entered := activation.inst.pushContext frame
  let leave (left : Activation) : Activation :=
    { left with inst := { left.inst.popContext with callDepth := left.inst.callDepth - 1 } }
  match body { activation with inst := { entered with callDepth := entered.callDepth + 1 } } with
  | .ok (_, value) left => .ok value (leave left)
  | .error error left => .error error (leave left)

/-- Call a function of the script, which is searched first, or of a library. `remaining` is how
many more script calls may be nested; the arguments are counted before that is looked at. -/
def call (setup : Setup) : (remaining : Nat) → Caller
  | remaining, name, arguments => do
      let activation ← get
      match setup.findFunction activation.inst name with
      | none => setup.callLibrary name arguments
      | some function =>
          let exemplar := setup.program.exemplar function
          let expected := exemplar.parameters.length
          if arguments.length ≠ expected then
            throw (.library (.arity exemplar.name
              (String.ofList (Number.digits expected)) arguments.length))
          else match remaining with
            | 0 => throw (.recursionLimit setup.config.maxCallDepth)
            | remaining + 1 =>
                let frame := (Context.frame function exemplar.isPure).bind
                  exemplar.parameters arguments
                inFrame frame (setup.runExemplarWith (setup.call remaining) function)

/-- Run the instructions of an exemplar with no call active. -/
def runExemplar (setup : Setup) (id : ExemplarId) : Run (Flow × Value) :=
  setup.runExemplarWith (setup.call setup.config.maxCallDepth) id

end Setup

end MachineScript
