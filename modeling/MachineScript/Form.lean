import MachineScript.Keyword
import MachineScript.Token

/-!
Contract: programs as trees of forms.

Owns: expressions, the steps that bodies run, definitions with their bodies,
and the libraries that a tree requires.

Does not own: how a tape is read as forms.
-/

namespace MachineScript

/-- A value as it is written: a constant, or a call inside brackets at an offset. -/
inductive Expr where
  | constant (value : Constant)
  | call (offset : Nat) (callee : String) (arguments : List Expr)

/-- The two ways to end a run. -/
inductive Transfer where
  | launch
  | goto
deriving DecidableEq, Repr

/-- The two ways to give a variable a value. -/
inductive Assignment where
  | set
  | shared
deriving DecidableEq, Repr

def Transfer.keyword : Transfer → Keyword
  | .launch => .launch
  | .goto => .goto

def Assignment.keyword : Assignment → Keyword
  | .set => .set
  | .shared => .shared

/-- One step of a body. -/
inductive Step where
  | transfer (transfer : Transfer) (target : String)
  | assign (assignment : Assignment) (name : String) (value : Expr)
  | call (callee : String) (arguments : List Expr)

/-- The transfer that a step is, if it is one. -/
def Step.transfer? : Step → Option Transfer
  | .transfer kind _ => some kind
  | _ => none

/-- What stands before the body of a definition. -/
inductive Head where
  | machine (name : String)
  | state (name : String)
  | handler (condition : String) (argument : Constant)
  | function (pure : Bool) (name : String) (parameters : List String)
deriving DecidableEq

namespace Head

def construct : Head → Construct
  | .machine _ => .machine
  | .state _ => .state
  | .handler _ _ => .handler
  | .function _ _ _ => .function

/-- The name defined; that of a handler is its condition. -/
def name : Head → String
  | .machine name => name
  | .state name => name
  | .handler condition _ => condition
  | .function _ name _ => name

/-- A function that must not change anything outside itself. -/
def isPure : Head → Bool
  | .function pure _ _ => pure
  | _ => false

end Head

/-- A form of a body, with the offset of its opening bracket where a later stage shows it. -/
inductive Form where
  | empty
  | require (library : String)
  | step (offset : Nat) (action : Step)
  | define (offset : Nat) (head : Head) (body : List Form)

namespace Form

mutual

/-- The libraries that a form requires, in source order. -/
def required : Form → List String
  | .empty => []
  | .require library => [library]
  | .step _ _ => []
  | .define _ _ body => requiredAll body

/-- The libraries that forms require, in source order. -/
def requiredAll : List Form → List String
  | [] => []
  | form :: rest => form.required ++ requiredAll rest

end

end Form

end MachineScript
