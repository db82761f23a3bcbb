/-!
Contract: where printed lines go.
-/

namespace MachineScript

/-- Printed text is collected, or dropped. -/
inductive Printer where
  | buffer (text : String)
  | silent
deriving DecidableEq, Repr

namespace Printer

/-- A printer that collects, with nothing in it yet. -/
def empty : Printer := .buffer ""

def printLine (printer : Printer) (line : String) : Printer :=
  match printer with
  | .buffer text => .buffer (text ++ line ++ "\n")
  | .silent => .silent

def printLines (printer : Printer) (lines : List String) : Printer :=
  lines.foldl printLine printer

def output : Printer → String
  | .buffer text => text
  | .silent => ""

def clear : Printer → Printer
  | .buffer _ => .buffer ""
  | .silent => .silent

end Printer

end MachineScript
