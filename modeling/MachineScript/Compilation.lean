import MachineScript.Form.OfTokens
import MachineScript.Form.Unreachable
import MachineScript.Program.OfForms

/-!
Contract: the program of a tape.

Owns: which libraries a program may require, whether unreachable steps are
reported, and the whole way from a tape to a program with its warnings.
-/

namespace MachineScript

/-- The libraries that `require` accepts, and whether unreachable steps are reported. -/
structure CompileOptions where
  libraries : List String := ["io", "math", "time"]
  warnUnreachable : Bool := true
deriving DecidableEq, Repr

namespace CompileOptions

def withLibrary (options : CompileOptions) (name : String) : CompileOptions :=
  if name ∈ options.libraries then options
  else { options with libraries := options.libraries ++ [name] }

def withoutLibraries (options : CompileOptions) : CompileOptions :=
  { options with libraries := [] }

/-- Report unreachable steps, or do not. -/
def reportUnreachable (options : CompileOptions) (enabled : Bool) : CompileOptions :=
  { options with warnUnreachable := enabled }

end CompileOptions

/-- A program with the warnings about it. -/
structure Compilation where
  program : Program
  warnings : List UnreachableStep

/-- The forms of a tape, which the brackets around the whole of it are added to first. -/
def Tape.forms (libraries : List String) (tape : Tape) : Except CompileError (List Form) :=
  (Form.ofTokens libraries tape.enclosed.tokens).mapError Failure.error

/-- The program of a tape. -/
def Tape.compile (options : CompileOptions) (tape : Tape) : Except CompileError Compilation := do
  let forms ← tape.forms options.libraries
  .ok
    { program := Program.ofForms tape.interner forms
      warnings :=
        if options.warnUnreachable then Form.unreachableIn .root "" none forms else [] }

end MachineScript
