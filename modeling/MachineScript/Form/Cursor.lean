import MachineScript.CompileError
import MachineScript.Tape.Bracket

/-!
Contract: a place on a tape together with what follows it.

Owns: moving on by one token, the tokens that readers of forms expect at a
place, and the failure that stops reading.
-/

namespace MachineScript

/-- A position on a tape and the tokens from there on. -/
structure Cursor where
  position : Nat
  rest : List Token
deriving DecidableEq

/-- What stopped the reading of forms, and where. -/
structure Failure where
  cause : CompileCause
  cursor : Cursor
deriving DecidableEq

def Failure.error (failure : Failure) : CompileError :=
  ⟨failure.cause, TokenContext.ofRest failure.cursor.position failure.cursor.rest⟩

namespace Cursor

def next (cursor : Cursor) : Cursor :=
  ⟨cursor.position + 1, cursor.rest.tail⟩

def fail {α : Type} (cursor : Cursor) (cause : CompileCause) : Except Failure α :=
  .error ⟨cause, cursor⟩

/-- The kind of the token at this place; the tape must not end inside a construct. -/
def lexeme (cursor : Cursor) (construct : Construct) : Except Failure Lexeme :=
  match cursor.rest with
  | [] => cursor.fail (.unexpectedEnd construct)
  | token :: _ => .ok token.lexeme

def offset (cursor : Cursor) : Nat :=
  match cursor.rest with
  | [] => 0
  | token :: _ => token.offset

def expectOpen (cursor : Cursor) (construct : Construct) : Except Failure Unit := do
  match ← cursor.lexeme construct with
  | .listOpen => .ok ()
  | _ => cursor.fail .expectedListOpen

/-- A name that is no keyword, introduced by a keyword. -/
def name (cursor : Cursor) (keyword : Keyword) (construct : Construct) : Except Failure String := do
  match ← cursor.lexeme construct with
  | .constant (.atom text) =>
      match Keyword.ofText? text with
      | some reserved => cursor.fail (.keywordAsName reserved)
      | none => .ok text
  | _ => cursor.fail (.expectedName keyword)

/-- The reading of a construct that opens here must end right behind the matching bracket. -/
def verifyClosed (opening after : Cursor) (construct : Construct) : Except Failure Unit :=
  if (Tape.listLength? opening.rest).map (opening.position + ·) = some after.position then .ok ()
  else opening.fail (.notProperlyClosed construct)

end Cursor

end MachineScript
