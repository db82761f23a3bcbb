import MachineScript.Form
import MachineScript.Form.Cursor

/-!
Contract: the forms that a sequence of tokens spells.

Owns:
- the grammar of programs as a reader by recursive descent, which keeps to the
  order of the tokens, so that the first fault is the one reported;
- the libraries that may be required, and names that may be defined only once;
- the check of every construct against the bracket that matches its own.

Does not own: the numbers of exemplars, and warnings.

Each call of a reader spends one unit of fuel, and a tape has fewer nested
calls than tokens, so the fuel of `ofTokens` is never used up.
-/

namespace MachineScript.Form

/-- What a body belongs to. -/
structure Owner where
  construct : Construct
  isPure : Bool
deriving DecidableEq

def Owner.root : Owner := ⟨.root, false⟩

/-- The names that a body has defined so far: machines and states share one set, functions have
one of their own. -/
structure Declared where
  machines : List String := []
  functions : List String := []
deriving DecidableEq

/-- The names after a form; a name may be defined only once in a body. -/
def Declared.add (declared : Declared) (owner : Owner) (opening : Cursor) :
    Form → Except Failure Declared
  | .define _ (.machine name) _ | .define _ (.state name) _ =>
      if name ∈ declared.machines then
        opening.fail (.duplicateDefinition name owner.construct)
      else .ok { declared with machines := name :: declared.machines }
  | .define _ (.function _ name _) _ =>
      if name ∈ declared.functions then
        opening.fail (.duplicateDefinition name owner.construct)
      else .ok { declared with functions := name :: declared.functions }
  | _ => .ok declared

/-- A reading that is accepted only if it ends right behind the bracket that matches the one it
started from. -/
def verified {α : Type} (opening : Cursor) (construct : Construct)
    (reading : Except Failure (α × Cursor)) : Except Failure (α × Cursor) := do
  let (content, after) ← reading
  opening.verifyClosed after construct
  .ok (content, after)

/-! ## Forms without nested forms -/

/-- The parameters of a function up to the bracket that closes their list. -/
def readParameters : (fuel : Nat) → Cursor → Except Failure (List String × Cursor)
  | 0, cursor => cursor.fail (.unexpectedEnd .function)
  | fuel + 1, cursor => do
      match ← cursor.lexeme .function with
      | .listClose => .ok ([], cursor.next)
      | .constant (.atom text) =>
          match Keyword.ofText? text with
          | some _ => cursor.fail .expectedParameter
          | none => do
              let (names, after) ← readParameters fuel cursor.next
              .ok (text :: names, after)
      | _ => cursor.fail .expectedParameter

/-- The name behind `require` and the bracket behind it. -/
def readRequirement (libraries : List String) (head : Cursor) :
    Except Failure (Form × Cursor) := do
  let library := head.next
  match ← library.lexeme .root with
  | .constant (.atom name) =>
      match ← library.next.lexeme .root with
      | .listClose =>
          if name ∈ libraries then .ok (.require name, library.next.next)
          else library.fail (.unknownLibrary name)
      | _ => library.next.fail (.malformedForm .require)
  | _ => library.fail (.malformedForm .require)

/-- The target of a transfer and the bracket behind it; a pure function must not launch. -/
def readTransfer (owner : Owner) (transfer : Transfer) (opening : Cursor) :
    Except Failure (Form × Cursor) := do
  if transfer = .launch ∧ owner.construct = .function ∧ owner.isPure then
    opening.next.fail (.notAllowedInPureFunction .launch)
  else do
    let target := opening.next.next
    match ← target.lexeme .state with
    | .constant (.atom name) =>
        match Keyword.ofText? name with
        | some _ => target.fail (.malformedForm transfer.keyword)
        | none =>
            match ← target.next.lexeme .state with
            | .listClose => .ok (.step opening.offset (.transfer transfer name), target.next.next)
            | _ => target.next.fail (.malformedForm transfer.keyword)
    | _ => target.fail (.malformedForm transfer.keyword)

/-! ## Calls and their arguments -/

mutual

/-- Values up to the bracket that closes the call they belong to. -/
def readArguments (construct : Construct) : (fuel : Nat) → Cursor →
    Except Failure (List Expr × Cursor)
  | 0, cursor => cursor.fail (.unexpectedEnd construct)
  | fuel + 1, cursor => do
      match ← cursor.lexeme construct with
      | .listClose => .ok ([], cursor.next)
      | .listOpen => do
          let (value, after) ← verified cursor .argument (readCall .argument fuel cursor)
          let (values, close) ← readArguments construct fuel after
          .ok (value :: values, close)
      | .constant value => do
          let (values, close) ← readArguments construct fuel cursor.next
          .ok (.constant value :: values, close)

def readCall (construct : Construct) : (fuel : Nat) → Cursor → Except Failure (Expr × Cursor)
  | 0, cursor => cursor.fail (.unexpectedEnd construct)
  | fuel + 1, cursor => do
      cursor.expectOpen construct
      let head := cursor.next
      match ← head.lexeme construct with
      | .constant (.atom callee) =>
          match Keyword.ofText? callee with
          | some keyword => head.fail (.notAllowedHere keyword construct)
          | none => do
              let (values, after) ← readArguments construct fuel head.next
              .ok (.call cursor.offset callee values, after)
      | _ => head.fail .expectedFormHead

end

/-- The value of an assignment: a constant, or a call inside brackets. -/
def readAssigned (owner : Owner) (assignment : Assignment) (fuel : Nat) (place : Cursor) :
    Except Failure (Expr × Cursor) := do
  match ← place.lexeme owner.construct with
  | .listOpen => verified place .assigned (readCall .assigned fuel place)
  | .constant value => .ok (.constant value, place.next)
  | .listClose => place.fail (.malformedForm assignment.keyword)

/-- The name and value of an assignment and the bracket behind them. -/
def readAssignment (owner : Owner) (assignment : Assignment) (fuel : Nat) (opening : Cursor) :
    Except Failure (Form × Cursor) := do
  let place := opening.next.next
  let name ← place.name assignment.keyword owner.construct
  let (value, after) ← readAssigned owner assignment fuel place.next
  match ← after.lexeme owner.construct with
  | .listClose => .ok (.step opening.offset (.assign assignment name value), after.next)
  | _ => after.fail (.malformedForm assignment.keyword)

/-! ## Definitions -/

/-- The keyword that opens a definition of a construct, as messages name it. -/
def definitionKeyword : Construct → Keyword
  | .machine => .machine
  | .state => .state
  | .handler => .on
  | _ => .defun

/-- A definition of a construct opens with its keyword; the answer says whether it is pure. -/
def readOpener (construct : Construct) (cursor : Cursor) : Except Failure Bool := do
  let expected := definitionKeyword construct
  match ← cursor.lexeme construct with
  | .constant (.atom text) =>
      match Keyword.ofText? text with
      | some .defum =>
          if construct = .function then .ok false else cursor.fail (.expectedKeyword expected)
      | some keyword =>
          if keyword = expected then .ok (construct = .function)
          else cursor.fail (.expectedKeyword expected)
      | none => cursor.fail (.expectedKeyword expected)
  | _ => cursor.fail (.expectedKeyword expected)

/-- What stands before the body of a definition, and where the body starts. -/
def readHead (construct : Construct) (fuel : Nat) (opening : Cursor) :
    Except Failure (Head × Cursor) := do
  opening.expectOpen construct
  let pure ← readOpener construct opening.next
  let place := opening.next.next
  let name ← place.name (definitionKeyword construct) construct
  let after := place.next
  match construct with
  | .machine => .ok (.machine name, after)
  | .state => .ok (.state name, after)
  | .handler =>
      match ← after.lexeme .handler with
      | .constant argument =>
          match ← after.next.lexeme .handler with
          | .listOpen => .ok (.handler name argument, after.next)
          | _ => after.next.fail .expectedHandlerBody
      | _ => after.fail .expectedConditionArgument
  | _ =>
      match ← after.lexeme .function with
      | .listOpen => do
          let (names, body) ← readParameters fuel after.next
          .ok (.function pure name names, body)
      | _ => after.fail .expectedParameterList

mutual

/-- The forms of a body up to the bracket that closes it. -/
def readBody (libraries : List String) (owner : Owner) (declared : Declared) :
    (fuel : Nat) → Cursor → Except Failure (List Form × Cursor)
  | 0, cursor => cursor.fail (.unexpectedEnd owner.construct)
  | fuel + 1, cursor => do
      match ← cursor.lexeme owner.construct with
      | .listClose => .ok ([], cursor.next)
      | .listOpen => do
          let (form, after) ← readForm libraries owner fuel cursor
          let declared ← declared.add owner cursor form
          let (forms, close) ← readBody libraries owner declared fuel after
          .ok (form :: forms, close)
      | other => cursor.fail (.unexpectedToken other.describe owner.construct)

/-- One form of a body, told apart by the atom behind its bracket. -/
def readForm (libraries : List String) (owner : Owner) :
    (fuel : Nat) → Cursor → Except Failure (Form × Cursor)
  | 0, cursor => cursor.fail (.unexpectedEnd owner.construct)
  | fuel + 1, cursor => do
      let head := cursor.next
      let define (construct : Construct) :=
        verified cursor construct (readDefinition libraries construct fuel cursor)
      match ← head.lexeme owner.construct with
      | .listClose => .ok (.empty, head.next)
      | .constant (.atom text) =>
          match Keyword.ofText? text with
          | none => do
              let (values, after) ← readArguments owner.construct fuel head.next
              .ok (.step cursor.offset (.call text values), after)
          | some keyword =>
              if !keyword.allowedIn owner.construct then
                head.fail (.notAllowedHere keyword owner.construct)
              else match keyword with
                | .machine => define .machine
                | .state => define .state
                | .on => define .handler
                | .defun | .defum => define .function
                | .require => readRequirement libraries head
                | .launch => readTransfer owner .launch cursor
                | .goto => readTransfer owner .goto cursor
                | .set => readAssignment owner .set fuel cursor
                | .shared => readAssignment owner .shared fuel cursor
      | _ => head.fail .expectedFormHead

def readDefinition (libraries : List String) (construct : Construct) :
    (fuel : Nat) → Cursor → Except Failure (Form × Cursor)
  | 0, cursor => cursor.fail (.unexpectedEnd construct)
  | fuel + 1, cursor => do
      let (head, inner) ← readHead construct fuel cursor
      let (forms, after) ← readBody libraries ⟨construct, head.isPure⟩ {} fuel inner
      .ok (.define cursor.offset head forms, after)

end

/-- The forms of a program inside the brackets around the whole of it. -/
def readProgram (libraries : List String) (fuel : Nat) (opening : Cursor) :
    Except Failure (List Form × Cursor) := do
  opening.expectOpen .root
  readBody libraries .root {} fuel opening.next

/-- The forms of a program whose tokens stand inside one pair of brackets; nothing may follow. -/
def ofTokens (libraries : List String) (tokens : List Token) : Except Failure (List Form) := do
  let opening : Cursor := ⟨0, tokens⟩
  let (forms, after) ← verified opening .root
    (readProgram libraries (tokens.length + 2) opening)
  if after.position = tokens.length then .ok forms
  else after.fail .trailingTokens

end MachineScript.Form
