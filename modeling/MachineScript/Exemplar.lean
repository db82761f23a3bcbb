import MachineScript.Bindings
import MachineScript.Form
import MachineScript.Interner

/-!
Contract: exemplars, the templates that running instances are made from.

Owns: instructions with the values they take, the record of an exemplar, and
programs, which number their exemplars.

Does not own: how forms become exemplars, how instructions run, and the width of
an exemplar's number, which the program keeps in 32 bits: the two are alike for
programs of fewer than 2^32 exemplars.
-/

namespace MachineScript

abbrev ExemplarId := Nat

/-- Where a value comes from. An inline call has an exemplar of its own, whose number it carries
along with the call. -/
inductive Source where
  | constant (value : Constant)
  | nested (id : ExemplarId) (callee : String) (arguments : List Source)

/-- One step of a run. -/
inductive Instruction where
  | launch (machine : String)
  | goto (state : String)
  | set (name : String) (value : Source)
  | shared (name : String) (value : Source)
  | call (callee : String) (arguments : List Source)

/-- `launch` and `goto` end the run of a list of instructions. -/
def Instruction.isTransfer : Instruction → Bool
  | .launch _ => true
  | .goto _ => true
  | _ => false

/-- A template. Machines and states share the names in `machines`; the argument belongs to a
handler, the parameters and purity to a function. -/
structure Exemplar where
  construct : Construct
  name : String := ""
  parent : Option ExemplarId := none
  instructions : List Instruction := []
  machines : Bindings String ExemplarId := []
  functions : Bindings String ExemplarId := []
  handlers : List ExemplarId := []
  argument : Option Constant := none
  parameters : List String := []
  isPure : Bool := false
  offset : Nat := 0

def Exemplar.blank : Exemplar := { construct := .root }

/-- The exemplars of a program by number, the table of its names, and the distinct libraries
that it requires in the order of first occurrence. -/
structure Program where
  exemplars : Array Exemplar
  interner : Interner
  required : List String

namespace Program

def root : ExemplarId := 0

/-- The exemplar of a number; numbers not given out stand for a blank one. -/
def exemplar (program : Program) (id : ExemplarId) : Exemplar :=
  program.exemplars.getD id Exemplar.blank

/-- The machine or state of a name directly inside an exemplar, if it is of the given kind. -/
def nested? (program : Program) (owner : ExemplarId) (name : String) (construct : Construct) :
    Option ExemplarId :=
  match (program.exemplar owner).machines.find? name with
  | some id => if (program.exemplar id).construct = construct then some id else none
  | none => none

def machine? (program : Program) (name : String) : Option ExemplarId :=
  program.nested? root name .machine

/-- The exemplars around one, nearest first, at most `fuel` of them. -/
def ancestorsWithin (program : Program) : (fuel : Nat) → ExemplarId → List ExemplarId
  | 0, _ => []
  | fuel + 1, id =>
      match (program.exemplar id).parent with
      | some parent => parent :: program.ancestorsWithin fuel parent
      | none => []

/-- The exemplars around one, nearest first. An exemplar has fewer of them than its number,
since every parent is numbered before its children. -/
def ancestors (program : Program) (id : ExemplarId) : List ExemplarId :=
  program.ancestorsWithin id id

end Program

end MachineScript
