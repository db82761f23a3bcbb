import MachineScript.Bindings
import MachineScript.Duration
import MachineScript.Exemplar
import MachineScript.Value

/-!
Contract: running instances of machines.

Owns: the contexts that states and function calls open, the handlers that wait
in them, an instance with its flags, and what becomes of it after a run and
after a fault.

Does not own: other instances, globals and queues, and the width of an instance
number. The program numbers instances in 64 bits; numbers here are without bound,
and the two are alike while fewer than 2^64 instances have been created.
-/

namespace MachineScript

/-- The number of an instance; it is never given out again. -/
abbrev InstanceId := Nat

/-- The instance that runs the forms at the top of the program. -/
def rootInstance : InstanceId := 0

/-- A variable of a machine that its instances share. -/
abbrev SharedKey := ExemplarId × String

/-- Where an instance stands. -/
inductive Status where
  | idle
  | ready
  | suspended
  | retiring
  | gone
deriving DecidableEq, Repr

def Status.word : Status → String
  | .idle => "idle"
  | .ready => "ready"
  | .suspended => "suspended"
  | .retiring => "retiring"
  | .gone => "gone"

/-- What opened a context. The variables that a pure frame sets are its own. -/
inductive ContextKind where
  | state
  | frame (isPure : Bool)
deriving DecidableEq, Repr

/-- A handler that waits for its condition. -/
structure Callback where
  handler : ExemplarId
  condition : String
  argument : Value
  registeredAt : Duration
deriving DecidableEq

/-- How long a handler has waited at a time; this is what its condition is shown. -/
def Callback.waited (callback : Callback) (now : Duration) : Duration :=
  now.sub callback.registeredAt

/-- The variables and waiting handlers of an active state or function call. -/
structure Context where
  exemplar : ExemplarId
  kind : ContextKind
  bindings : Bindings String Value := []
  callbacks : List Callback := []
deriving DecidableEq

namespace Context

def state (exemplar : ExemplarId) : Context := { exemplar := exemplar, kind := .state }

/-- The context of a function that is called with no parameters bound yet. -/
def frame (exemplar : ExemplarId) (isPure : Bool) : Context :=
  { exemplar := exemplar, kind := .frame isPure }

def isFrame (context : Context) : Bool :=
  match context.kind with
  | .frame _ => true
  | .state => false

def isPureFrame (context : Context) : Bool :=
  context.kind = .frame true

def assign (context : Context) (name : String) (value : Value) : Context :=
  { context with bindings := context.bindings.insert name value }

/-- Give parameters the values of arguments, one after another. -/
def bind (context : Context) (parameters : List String) (arguments : List Value) : Context :=
  (parameters.zip arguments).foldl (fun bound entry => bound.assign entry.1 entry.2) context

end Context

/-- An instance of a machine. Contexts stand innermost first; `sharedRefs` lists the shared
variables that it holds, once for each time it took hold. -/
structure Instance where
  id : InstanceId
  machine : ExemplarId
  parent : Option InstanceId
  status : Status := .idle
  contexts : List Context := []
  bindings : Bindings String Value := []
  sharedRefs : List SharedKey := []
  transitionQueued : Bool := false
  parked : Bool := false
  callDepth : Nat := 0
deriving DecidableEq

namespace Instance

/-- An instance that has run nothing yet. -/
def create (id : InstanceId) (machine : ExemplarId) (parent : Option InstanceId) : Instance :=
  { id := id, machine := machine, parent := parent }

/-- The instance runs the forms at the top of the program. -/
def isRoot (inst : Instance) : Bool :=
  inst.id = rootInstance

def pushContext (inst : Instance) (context : Context) : Instance :=
  { inst with contexts := context :: inst.contexts }

def popContext (inst : Instance) : Instance :=
  { inst with contexts := inst.contexts.tail }

/-- Change the context that is `level` contexts away from the innermost one. -/
def modifyContext (inst : Instance) (level : Nat) (change : Context → Context) : Instance :=
  { inst with contexts := inst.contexts.modify level change }

def addCallback (inst : Instance) (callback : Callback) : Instance :=
  inst.modifyContext 0 fun context =>
    { context with callbacks := context.callbacks ++ [callback] }

def callback? (inst : Instance) (level index : Nat) : Option Callback :=
  match inst.contexts[level]? with
  | some context => context.callbacks[index]?
  | none => none

def removeCallback (inst : Instance) (level index : Nat) : Instance :=
  inst.modifyContext level fun context =>
    { context with callbacks := context.callbacks.eraseIdx index }

def dropCallbacks (inst : Instance) : Instance :=
  { inst with contexts := inst.contexts.map fun context => { context with callbacks := [] } }

def currentState (inst : Instance) : Option ExemplarId :=
  (inst.contexts.find? fun context => !context.isFrame).map Context.exemplar

/-- The active states, outermost first. -/
def activeStates (inst : Instance) : List ExemplarId :=
  ((inst.contexts.filter fun context => !context.isFrame).map Context.exemplar).reverse

def hasPendingCallbacks (inst : Instance) : Bool :=
  inst.contexts.any fun context => !context.callbacks.isEmpty

/-- After a run an instance waits if there is something to wait for, and retires otherwise. The
root always waits. -/
def settle (inst : Instance) : Instance :=
  if inst.isRoot || inst.transitionQueued || inst.parked || inst.hasPendingCallbacks then
    { inst with status := .suspended }
  else
    { inst with contexts := [], status := .retiring }

/-- After a fault nothing of an instance can run again. The root stays as it is. -/
def halt (inst : Instance) : Instance :=
  { inst with
    contexts := []
    transitionQueued := false
    parked := false
    callDepth := 0
    status := if inst.isRoot then inst.status else .retiring }

end Instance

end MachineScript
