import MachineScript.Engine.World

/-!
Contract: what a name means to a running instance.

Owns:
- variables: found in the contexts from the innermost one out, then in the
  instance, in the shared cells of its machine and of the machines around it,
  among the values of required modules, and among the globals;
- reading and writing what was found, and the rule of `set`;
- functions, machines and states: found in the contexts from the innermost one
  out, then in the instance's machine and, for functions and machines, around it.
-/

namespace MachineScript

/-- Where a variable lives. -/
inductive Slot where
  | context (level : Nat)
  | inst
  | shared (key : SharedKey)
  | module
  | global
deriving DecidableEq, Repr

namespace Setup

/-- The machine of an instance and the machines around it, nearest first. -/
def machineLineage (setup : Setup) (machine : ExemplarId) : List ExemplarId :=
  (machine :: setup.program.ancestors machine).filter fun id =>
    (setup.program.exemplar id).construct = .machine

/-- The error of a variable that is not found: a module that was not required is named first. -/
def variableError (setup : Setup) (name : String) : NameError :=
  match moduleOf name with
  | some module => if setup.requires module then ⟨.variable, name⟩ else ⟨.module, module⟩
  | none => ⟨.variable, name⟩

/-- A name stands for a value of a required module. -/
def isModuleValue (setup : Setup) (name : String) : Bool :=
  match moduleOf name with
  | some module => setup.requires module && (setup.registry.value? name).isSome
  | none => false

/-- Where a variable lives for an instance. -/
def resolve (setup : Setup) (world : World) (inst : Instance) (name : String) :
    Except NameError Slot :=
  match inst.contexts.findIdx? fun context => context.bindings.has name with
  | some level => .ok (.context level)
  | none =>
      if !inst.isRoot && inst.bindings.has name then .ok .inst
      else
        let keys := (setup.machineLineage inst.machine).map fun machine => (machine, name)
        match keys.find? fun key => world.shared.has key with
        | some key => .ok (.shared key)
        | none =>
            if setup.isModuleValue name then .ok .module
            else if world.globals.has name then .ok .global
            else .error (setup.variableError name)

def readSlot (setup : Setup) (world : World) (inst : Instance) (name : String) (slot : Slot) :
    Value :=
  let value := match slot with
    | .context level => inst.contexts[level]?.bind fun context => context.bindings.find? name
    | .inst => inst.bindings.find? name
    | .shared key => world.shared.value? key
    | .module => setup.registry.value? name
    | .global => world.globals.find? name
  value.getD .nil

def readVariable (setup : Setup) (world : World) (inst : Instance) (name : String) :
    Except NameError Value :=
  (setup.resolve world inst name).map (setup.readSlot world inst name)

/-- The search for functions and machines: the contexts from the innermost one out, then the
instance's machine and what is around it. -/
def lexicalScopes (setup : Setup) (inst : Instance) : List ExemplarId :=
  inst.contexts.map Context.exemplar ++ inst.machine :: setup.program.ancestors inst.machine

def findFunction (setup : Setup) (inst : Instance) (name : String) : Option ExemplarId :=
  (setup.lexicalScopes inst).findSome? fun scope =>
    (setup.program.exemplar scope).functions.find? name

def findMachine (setup : Setup) (inst : Instance) (name : String) : Option ExemplarId :=
  (setup.lexicalScopes inst).findSome? fun scope => setup.program.nested? scope name .machine

/-- The state that a name transfers to: inside an active state, innermost first, or directly
inside the machine. -/
def findState (setup : Setup) (inst : Instance) (name : String) : Option ExemplarId :=
  let active := (inst.contexts.filter fun context => !context.isFrame).map Context.exemplar
  (active ++ [inst.machine]).findSome? fun scope => setup.program.nested? scope name .state

end Setup

namespace Activation

/-- Overwrite a slot. Values of modules are not written, nor cells that do not exist. -/
def writeSlot? (activation : Activation) (name : String) (slot : Slot) (value : Value) :
    Option Activation :=
  let inst := activation.inst
  let world := activation.world
  match slot with
  | .context level =>
      if level < inst.contexts.length then
        some { activation with
          inst := inst.modifyContext level fun context => context.assign name value }
      else none
  | .inst =>
      some { activation with
        inst := { inst with bindings := inst.bindings.insert name value } }
  | .shared key =>
      (world.shared.assign? key value).map fun cells =>
        { activation with world := { world with shared := cells } }
  | .module => none
  | .global =>
      some { activation with
        world := { world with globals := world.globals.insert name value } }

def setLocal (activation : Activation) (name : String) (value : Value) : Activation :=
  { activation with
    inst := activation.inst.modifyContext 0 fun context => context.assign name value }

/-- The effect of `set`. Outside of all contexts it sets a global for the root and a variable of
the instance otherwise. A pure frame sets its own variable. Anything else writes the variable
that the name stands for, and sets one of the innermost context if that cannot be written. -/
def set (setup : Setup) (activation : Activation) (name : String) (value : Value) : Activation :=
  let inst := activation.inst
  let world := activation.world
  match inst.contexts with
  | [] =>
      if inst.isRoot then
        { activation with world := { world with globals := world.globals.insert name value } }
      else
        { activation with inst := { inst with bindings := inst.bindings.insert name value } }
  | innermost :: _ =>
      if innermost.isPureFrame then activation.setLocal name value
      else match setup.resolve world inst name with
        | .ok .module => activation.setLocal name value
        | .ok slot => (activation.writeSlot? name slot value).getD activation
        | .error _ => activation.setLocal name value

end Activation

end MachineScript
