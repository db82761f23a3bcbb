import MachineScript.Text.Quoted
import MachineScript.Value

/-!
Contract: what can stop an instance in the middle of a run.

Owns: names that do not resolve, arguments that a function refuses, calls that
nest too deep, and the wording of each.
-/

namespace MachineScript

open Text (marked)

/-- What a name was looked up as. -/
inductive NameKind where
  | variable
  | function
  | state
  | machine
  | condition
  | module
deriving DecidableEq, Repr

def NameKind.word : NameKind → String
  | .variable => "variable"
  | .function => "function"
  | .state => "state"
  | .machine => "machine"
  | .condition => "condition"
  | .module => "module"

/-- A name that no scope and no library defines. -/
structure NameError where
  kind : NameKind
  name : String
deriving DecidableEq, Repr

def NameError.message (error : NameError) : String :=
  "undefined " ++ error.kind.word ++ " " ++ marked error.name

/-- Arguments that a function or condition refuses. -/
inductive LibraryError where
  | arity (function : String) (expected : String) (got : Nat)
  | type (function : String) (expected : String) (got : String)
deriving DecidableEq, Repr

def LibraryError.message : LibraryError → String
  | .arity function expected got =>
      marked function ++ " expects " ++ expected ++ s!" argument(s), got {got}"
  | .type function expected got => marked function ++ " expects " ++ expected ++ ", got " ++ got

/-- What stops a run. -/
inductive RuntimeError where
  | name (error : NameError)
  | library (error : LibraryError)
  | recursionLimit (depth : Nat)
deriving DecidableEq, Repr

def RuntimeError.message : RuntimeError → String
  | .name error => error.message
  | .library error => error.message
  | .recursionLimit depth => s!"call depth exceeded {depth}"

def RuntimeError.undefined (kind : NameKind) (name : String) : RuntimeError :=
  .name ⟨kind, name⟩

/-- An error with the instance and the machine in which it arose. -/
structure InstanceFault where
  instanceId : Nat
  machine : String
  error : RuntimeError
deriving DecidableEq, Repr

def InstanceFault.message (fault : InstanceFault) : String :=
  "machine " ++ marked fault.machine ++ s!" (#{fault.instanceId}) faulted: "
    ++ fault.error.message

end MachineScript
