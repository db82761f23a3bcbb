import MachineScript.Form
import MachineScript.Text.Quoted

/-!
Contract: the steps of a program that stand right after a transfer.

A transfer ends the run of a state or of a handler, so a step after it is
never reached. Each step whose predecessor in the same body is a transfer is
reported, in source order.
-/

namespace MachineScript

/-- A step right after a transfer: the name of the definition it stands in, the transfer, and
the offset of the step. -/
structure UnreachableStep where
  owner : String
  transfer : Transfer
  offset : Nat
deriving DecidableEq, Repr

def UnreachableStep.message (warning : UnreachableStep) : String :=
  let owner := if warning.owner.isEmpty then "program root" else warning.owner
  "unreachable instructions after " ++ Text.marked warning.transfer.keyword.text ++ " in "
    ++ Text.marked owner ++ s!" at byte {warning.offset}"

namespace Form

/-- The transfer that the last step was, behind one more form. -/
def lastTransfer (last : Option Transfer) : Form → Option Transfer
  | .step _ action => action.transfer?
  | _ => last

/-- The report on a step of a body whose last step was a transfer. -/
def reportAfter (construct : Construct) (owner : String) (last : Option Transfer) :
    Form → List UnreachableStep
  | .step offset _ =>
      match last with
      | some transfer => if construct.suspends then [⟨owner, transfer, offset⟩] else []
      | none => []
  | _ => []

mutual

def unreachable : Form → List UnreachableStep
  | .define _ head body => unreachableIn head.construct head.name none body
  | .empty => []
  | .require _ => []
  | .step _ _ => []

/-- The reports on a body and from inside its definitions; `last` is the transfer that the step
before these forms was, if it was one. -/
def unreachableIn (construct : Construct) (owner : String) (last : Option Transfer) :
    List Form → List UnreachableStep
  | [] => []
  | form :: rest =>
      form.reportAfter construct owner last ++ form.unreachable
        ++ unreachableIn construct owner (form.lastTransfer last) rest

end

end Form

end MachineScript
