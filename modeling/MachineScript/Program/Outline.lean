import MachineScript.Exemplar

/-!
Contract: a program shown as an indented outline, a line for each exemplar and
each instruction.

Owns: the line of a definition and of an instruction, their order under their
owner, and the indentation by two spaces a level.

Definitions stand in the order of their offsets, then handlers, then
instructions. An inline call is named by its construct in the line that uses
it, and its own line follows one level deeper.
-/

namespace MachineScript

def outlineLine (level : Nat) (text : String) : String :=
  String.ofList (List.replicate (2 * level) ' ') ++ text

/-- Words after a first one, each behind a space. -/
def followed (first : String) (words : List String) : String :=
  words.foldl (fun line word => line ++ " " ++ word) first

def Source.word (construct : Construct) : Source → String
  | .constant value => value.display
  | .nested _ _ _ => "<" ++ construct.word ++ ">"

mutual

def Source.outline (level : Nat) : Source → List String
  | .constant _ => []
  | .nested _ callee arguments =>
      outlineLine level (followed ("call " ++ callee) (arguments.map (Source.word .argument)))
        :: Source.outlineAll (level + 1) arguments

def Source.outlineAll (level : Nat) : List Source → List String
  | [] => []
  | source :: rest => source.outline level ++ Source.outlineAll level rest

end

def Instruction.outline (level : Nat) : Instruction → List String
  | .launch machine => [outlineLine level ("launch " ++ machine)]
  | .goto state => [outlineLine level ("goto " ++ state)]
  | .set name value =>
      outlineLine level (followed ("set " ++ name) [value.word .assigned])
        :: value.outline (level + 1)
  | .shared name value =>
      outlineLine level (followed ("shared " ++ name) [value.word .assigned])
        :: value.outline (level + 1)
  | .call callee arguments =>
      outlineLine level (followed ("call " ++ callee) (arguments.map (Source.word .argument)))
        :: Source.outlineAll (level + 1) arguments

/-- The line of an exemplar, without its indentation. -/
def Exemplar.heading (exemplar : Exemplar) : String :=
  match exemplar.construct with
  | .root => exemplar.construct.word
  | .function =>
      let keyword := if exemplar.isPure then "defun" else "defum"
      exemplar.construct.word ++ " " ++ exemplar.name ++ " (" ++ keyword ++ " "
        ++ " ".intercalate exemplar.parameters ++ ")"
  | .handler =>
      followed (exemplar.construct.word ++ " " ++ exemplar.name)
        (exemplar.argument.toList.map Constant.display)
  | _ => exemplar.construct.word ++ " " ++ exemplar.name

namespace Program

/-- The machines, states and functions directly inside an exemplar in the order of their offsets. -/
def definitions (program : Program) (exemplar : Exemplar) : List ExemplarId :=
  (exemplar.machines.map Prod.snd ++ exemplar.functions.map Prod.snd).mergeSort
    fun left right => (program.exemplar left).offset ≤ (program.exemplar right).offset

/-- The lines of an exemplar and of what is inside it, at most `fuel` levels deep. -/
def outlineOf (program : Program) : (fuel : Nat) → (level : Nat) → ExemplarId → List String
  | 0, _, _ => []
  | fuel + 1, level, id =>
      let exemplar := program.exemplar id
      let children := program.definitions exemplar ++ exemplar.handlers
      outlineLine level exemplar.heading
        :: children.flatMap (program.outlineOf fuel (level + 1))
        ++ exemplar.instructions.flatMap (Instruction.outline (level + 1))

/-- The lines of a program: the libraries that it requires, then its exemplars. A program is
never nested deeper than it has exemplars. -/
def outlineLines (program : Program) : List String :=
  program.required.map ("require " ++ ·)
    ++ program.outlineOf program.exemplars.size 0 root

def outline (program : Program) : String :=
  String.join (program.outlineLines.map (· ++ "\n"))

end Program

end MachineScript
