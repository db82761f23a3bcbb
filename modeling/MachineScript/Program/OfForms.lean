import MachineScript.Exemplar

/-!
Contract: the exemplars of a tree of forms.

Owns: the numbering of exemplars in the order of their opening brackets, and
what of each body goes where: definitions under their names, handlers and
steps in source order, inline calls as exemplars of one step.

Each function takes the number that the first new exemplar gets and returns
the new exemplars in the order of their numbers.
-/

namespace MachineScript

mutual

/-- The source of a value and the exemplars of the calls in it. -/
def Expr.lower (parent next : ExemplarId) (construct : Construct) :
    Expr → Source × List Exemplar
  | .constant value => (.constant value, [])
  | .call offset callee values =>
      let (sources, inner) := Expr.lowerAll next (next + 1) values
      let exemplar : Exemplar :=
        { construct := construct
          parent := some parent
          instructions := [.call callee sources]
          offset := offset }
      (.nested next callee sources, exemplar :: inner)

/-- The sources of arguments and the exemplars of the calls in them. -/
def Expr.lowerAll (parent next : ExemplarId) : List Expr → List Source × List Exemplar
  | [] => ([], [])
  | value :: rest =>
      let (source, inner) := Expr.lower parent next .argument value
      let (sources, later) := Expr.lowerAll parent (next + inner.length) rest
      (source :: sources, inner ++ later)

end

/-- The instruction of a step and the exemplars of the calls in it. -/
def Step.lower (owner next : ExemplarId) : Step → Instruction × List Exemplar
  | .transfer .launch target => (.launch target, [])
  | .transfer .goto target => (.goto target, [])
  | .assign .set name value =>
      let (source, inner) := Expr.lower owner next .assigned value
      (.set name source, inner)
  | .assign .shared name value =>
      let (source, inner) := Expr.lower owner next .assigned value
      (.shared name source, inner)
  | .call callee values =>
      let (sources, inner) := Expr.lowerAll owner next values
      (.call callee sources, inner)

/-- What the forms of a body contribute to the exemplar that owns them. -/
structure Content where
  instructions : List Instruction := []
  machines : Bindings String ExemplarId := []
  functions : Bindings String ExemplarId := []
  handlers : List ExemplarId := []

/-- A definition filed in front of the rest of its owner's content. -/
def Content.define (content : Content) (head : Head) (id : ExemplarId) : Content :=
  match head with
  | .machine name => { content with machines := (name, id) :: content.machines }
  | .state name => { content with machines := (name, id) :: content.machines }
  | .handler _ _ => { content with handlers := id :: content.handlers }
  | .function _ name _ => { content with functions := (name, id) :: content.functions }

def Head.exemplar (head : Head) (owner : ExemplarId) (offset : Nat) (content : Content) :
    Exemplar :=
  { construct := head.construct
    name := head.name
    parent := some owner
    instructions := content.instructions
    machines := content.machines
    functions := content.functions
    handlers := content.handlers
    argument := match head with
      | .handler _ argument => some argument
      | _ => none
    parameters := match head with
      | .function _ _ parameters => parameters
      | _ => []
    isPure := head.isPure
    offset := offset }

mutual

/-- A form's part of its owner's content, put in front of the rest, and its exemplars. -/
def Form.lower (owner next : ExemplarId) : Form → (Content → Content) × List Exemplar
  | .empty => (id, [])
  | .require _ => (id, [])
  | .step _ action =>
      let (instruction, inner) := action.lower owner next
      (fun content => { content with instructions := instruction :: content.instructions }, inner)
  | .define offset head body =>
      let (content, inner) := Form.lowerAll next (next + 1) body
      (fun rest => rest.define head next, head.exemplar owner offset content :: inner)

def Form.lowerAll (owner next : ExemplarId) : List Form → Content × List Exemplar
  | [] => ({}, [])
  | form :: rest =>
      let (place, inner) := form.lower owner next
      let (content, later) := Form.lowerAll owner (next + inner.length) rest
      (place content, inner ++ later)

end

/-- The program of the forms at its top. -/
def Program.ofForms (interner : Interner) (forms : List Form) : Program :=
  let (content, inner) := Form.lowerAll Program.root (Program.root + 1) forms
  let top : Exemplar :=
    { construct := .root
      instructions := content.instructions
      machines := content.machines
      functions := content.functions
      handlers := content.handlers }
  { exemplars := (top :: inner).toArray
    interner := interner
    required := (Form.requiredAll forms).eraseDups }

end MachineScript
