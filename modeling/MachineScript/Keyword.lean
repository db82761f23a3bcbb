/-!
Contract: the constructs of a program and the words that are reserved for them.

Owns: which construct each definition keyword opens, and the table of the
keywords that may stand directly inside each construct.
-/

namespace MachineScript

/-- What a bracketed part of a program is: the program itself, a definition, or a call that is
the value of an assignment or an argument of another call. -/
inductive Construct where
  | root
  | machine
  | state
  | handler
  | function
  | assigned
  | argument
deriving DecidableEq, Repr

def Construct.word : Construct → String
  | .root => "root"
  | .machine => "machine"
  | .state => "state"
  | .handler => "on"
  | .function => "function"
  | .assigned => "monad"
  | .argument => "list"

/-- The runs of these constructs end at a transfer. -/
def Construct.suspends : Construct → Bool
  | .state | .handler => true
  | _ => false

/-- The reserved words. -/
inductive Keyword where
  | machine
  | state
  | on
  | defun
  | defum
  | require
  | launch
  | goto
  | set
  | shared
deriving DecidableEq, Repr

namespace Keyword

def text : Keyword → String
  | .machine => "machine"
  | .state => "state"
  | .on => "on"
  | .defun => "defun"
  | .defum => "defum"
  | .require => "require"
  | .launch => "launch"
  | .goto => "goto"
  | .set => "set"
  | .shared => "shared"

def all : List Keyword :=
  [.machine, .state, .on, .defun, .defum, .require, .launch, .goto, .set, .shared]

def ofText? (written : String) : Option Keyword :=
  all.find? fun keyword => keyword.text == written

/-- A keyword may stand at the head of a form directly inside a construct. -/
def allowedIn (keyword : Keyword) (container : Construct) : Bool :=
  match keyword, container with
  | .machine, .root | .machine, .machine | .machine, .state => true
  | .defun, .root | .defun, .machine | .defun, .state => true
  | .defum, .root | .defum, .machine | .defum, .state => true
  | .state, .machine | .state, .state => true
  | .on, .state => true
  | .goto, .state | .goto, .handler => true
  | .shared, .machine => true
  | .require, .root | .require, .machine => true
  | .launch, .root | .launch, .machine | .launch, .state | .launch, .handler
  | .launch, .function => true
  | .set, .root | .set, .machine | .set, .state | .set, .handler | .set, .function => true
  | _, _ => false

@[simp] theorem ofText?_text (keyword : Keyword) : ofText? keyword.text = some keyword := by
  cases keyword <;> decide

end Keyword

end MachineScript
